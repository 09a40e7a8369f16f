import EventSourcing.Json.Decode
import EventSourcing.Text.Blank
import EventSourcing.Word

/-!
Accounts.
An account has an owner and a balance, and is open or closed. Amounts are signed 64-bit numbers.
-/
namespace EventSourcing

inductive AccountStatus where
  | opened
  | closed
  deriving DecidableEq, Inhabited

structure Account where
  owner : String
  balance : Int
  status : AccountStatus
  deriving DecidableEq, Inhabited

namespace AccountStatus

def name : AccountStatus → String
  | .opened => "Open"
  | .closed => "Closed"

def decode : Decoder AccountStatus := .variant [("Open", .opened), ("Closed", .closed)]

end AccountStatus

namespace Account

def isOpen (a : Account) : Bool := a.status = .opened

/-- The amount nearest to a number. -/
def clamp (n : Int) : Int := max Word.leastInt64 (min Word.greatestInt64 n)

def toJson (a : Account) : Json :=
  Json.object [("owner", .str a.owner), ("balance", .int a.balance), ("status", .str a.status.name)]

def decode : Decoder Account :=
  .record "Account" <|
    mk <$> .required "owner" .text <*> .required "balance" .int64
      <*> .required "status" AccountStatus.decode

/-- What an opening event records. -/
structure Opened where
  owner : String
  initialDeposit : Int
  deriving DecidableEq

/-- What a deposit or a withdrawal records. -/
structure Amount where
  amount : Int
  deriving DecidableEq

/-- What a closing event records. -/
structure Closed where
  reason : Option String
  deriving DecidableEq

def Opened.toJson (o : Opened) : Json :=
  Json.object [("owner", .str o.owner), ("initial_deposit", .int o.initialDeposit)]

def Opened.decode : Decoder Opened :=
  .record "AccountOpenedData" <|
    mk <$> .required "owner" .text <*> .required "initial_deposit" .int64

def Amount.toJson (a : Amount) : Json := Json.object [("amount", .int a.amount)]

def Amount.decode : Decoder Amount :=
  .record "AmountData" <| mk <$> .required "amount" .int64

def Closed.toJson (c : Closed) : Json := Json.object [("reason", Json.optionalText c.reason)]

def Closed.decode : Decoder Closed :=
  .record "AccountClosedData" <| mk <$> .optional "reason" .text

/-- The command to open an account. -/
structure Open where
  owner : String
  initialDeposit : Int
  deriving DecidableEq

/-- The command to deposit or to withdraw. -/
structure Change where
  amount : Int
  deriving DecidableEq

/-- The command to close an account. -/
structure Close where
  reason : Option String
  deriving DecidableEq

def Open.toJson (o : Open) : Json :=
  Json.object [("owner", .str o.owner), ("initial_deposit", .int o.initialDeposit)]

/-- Nothing is deposited where the command does not say otherwise. -/
def Open.decode : Decoder Open :=
  .record "OpenAccount" <|
    mk <$> .required "owner" .text <*> .withDefault "initial_deposit" .int64 0

def Change.toJson (c : Change) : Json := Json.object [("amount", .int c.amount)]

def Change.decode : Decoder Change :=
  .record "ChangeBalance" <| mk <$> .required "amount" .int64

def Close.toJson (c : Close) : Json := Json.object [("reason", Json.optionalText c.reason)]

def Close.decode : Decoder Close :=
  .record "CloseAccount" <| mk <$> .optional "reason" .text

end Account
end EventSourcing
