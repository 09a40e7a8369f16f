import EventSourcing.Account
import EventSourcing.Command.Description

/-!
What accounts do.
The rules of a command are checked in order: that the account is open, that the amount is not
negative, and that the balance allows it. An amount of zero and the closing of a closed account are
accepted and change nothing.
-/
namespace EventSourcing.Account

inductive Refusal where
  | alreadyOpen
  | ownerRequired
  | invalidAmount (amount : Int)
  | insufficientBalance (balance requested : Int)
  | closed
  | balanceOverflow (balance amount : Int)
  | nonZeroBalance (balance : Int)
  deriving DecidableEq

def Refusal.message : Refusal → String
  | .alreadyOpen => "Account already open"
  | .ownerRequired => "Owner is required"
  | .invalidAmount amount => s!"Invalid amount: {amount} (must not be negative)"
  | .insufficientBalance balance requested =>
    s!"Insufficient balance: {balance} available, {requested} requested"
  | .closed => "Account is closed"
  | .balanceOverflow balance amount => s!"Deposit of {amount} would overflow balance {balance}"
  | .nonZeroBalance balance => s!"Cannot close account with balance {balance}"

instance : Rejection Refusal := ⟨Refusal.message⟩

def typeName : String := "account"
def openedEvent : String := "AccountOpened"
def depositedEvent : String := "MoneyDeposited"
def withdrawnEvent : String := "MoneyWithdrawn"
def closedEvent : String := "AccountClosed"

def openProgram (existing : Option (Entity Account)) (c : Open) : Program Refusal :=
  if existing.isSome then .reject .alreadyOpen
  else if Text.allBlank c.owner then .reject .ownerRequired
  else if c.initialDeposit < 0 then .reject (.invalidAmount c.initialDeposit)
  else .appendEvent openedEvent (Opened.toJson ⟨c.owner, c.initialDeposit⟩)

def depositProgram (e : Entity Account) (c : Change) : Program Refusal :=
  if !e.state.isOpen then .reject .closed
  else if c.amount < 0 then .reject (.invalidAmount c.amount)
  else if c.amount = 0 then .done
  else if Word.greatestInt64 < e.state.balance + c.amount then
    .reject (.balanceOverflow e.state.balance c.amount)
  else .appendEvent depositedEvent (Amount.toJson ⟨c.amount⟩)

def withdrawProgram (e : Entity Account) (c : Change) : Program Refusal :=
  if !e.state.isOpen then .reject .closed
  else if c.amount < 0 then .reject (.invalidAmount c.amount)
  else if c.amount = 0 then .done
  else if e.state.balance < c.amount then
    .reject (.insufficientBalance e.state.balance c.amount)
  else .appendEvent withdrawnEvent (Amount.toJson ⟨c.amount⟩)

def closeProgram (e : Entity Account) (c : Close) : Program Refusal :=
  if !e.state.isOpen then .done
  else if e.state.balance ≠ 0 then .reject (.nonZeroBalance e.state.balance)
  else .appendEvent closedEvent (Closed.toJson ⟨c.reason⟩)

def stateSchema : Schema :=
  Schema.object |>.require "owner" .string |>.require "balance" .integer |>.require "status" .string

def openedSchema : Schema :=
  Schema.object |>.require "owner" .string |>.require "initial_deposit" .integer

def amountSchema : Schema := Schema.object |>.require "amount" .integer

def closedSchema : Schema := Schema.object |>.optional "reason" .string

def openSchema : Schema :=
  Schema.object |>.require "owner" .string |>.optional "initial_deposit" .integer

def changeSchema : Schema := Schema.object |>.require "amount" .integer

def closeSchema : Schema := Schema.object |>.optional "reason" .string

def afterOpening (o : Opened) : Account := ⟨o.owner, o.initialDeposit, .opened⟩

def afterDeposit (a : Account) (d : Amount) : Account :=
  { a with balance := clamp (a.balance + d.amount) }

def afterWithdrawal (a : Account) (d : Amount) : Account :=
  { a with balance := clamp (a.balance - d.amount) }

def afterClosing (a : Account) (_ : Closed) : Account := { a with status := .closed }

def description : Description Account Refusal :=
  Description.ofType typeName
    |>.withState stateSchema
    |>.withEvent openedEvent openedSchema
    |>.withEvent depositedEvent amountSchema
    |>.withEvent withdrawnEvent amountSchema
    |>.withEvent closedEvent closedSchema
    |>.withInitializer openedEvent Opened.decode afterOpening
    |>.withReducer depositedEvent Amount.decode afterDeposit
    |>.withReducer withdrawnEvent Amount.decode afterWithdrawal
    |>.withReducer closedEvent Closed.decode afterClosing
    |>.withCreation "open" openSchema Open.decode openProgram
    |>.withCommand "deposit" changeSchema Change.decode depositProgram
    |>.withCommand "withdraw" changeSchema Change.decode withdrawProgram
    |>.withCommand "close" closeSchema Close.decode closeProgram

end EventSourcing.Account
