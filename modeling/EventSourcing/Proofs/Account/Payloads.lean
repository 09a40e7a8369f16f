import EventSourcing.Account.Commands
import EventSourcing.Proofs.Json.Records

/-!
Payloads of account events.
What a handler writes into an event can be read back, as long as amounts are signed 64-bit numbers;
those that a command is given always are.
-/
namespace EventSourcing

namespace Account

theorem Opened.toJson_eq (o : Opened) : o.toJson =
    .obj [("initial_deposit", .int o.initialDeposit), ("owner", .str o.owner)] := by
  have sorted : ("initial_deposit" : String) < "owner" := by decide
  simp [Opened.toJson, Json.object, Json.insertField, sorted]

theorem Opened.decode_toJson {o : Opened} (h : Word.isInt64 o.initialDeposit = true) :
    Opened.decode o.toJson = .ok o := by
  have owner : o.toJson.get? "owner" = some (.str o.owner) := by
    simp [toJson, Json.get?_object, Json.field?]
  have deposit : o.toJson.get? "initial_deposit" = some (.int o.initialDeposit) := by
    simp [toJson, Json.get?_object, Json.field?]
  refine Decoder.record_of_yields (by decide) (Json.inOrder_object _) (.seq (.map ?_ mk) ?_)
  · exact .required owner rfl
  · exact .required deposit (Decoder.int64_of_isInt64 h)

theorem Amount.decode_toJson {a : Amount} (h : Word.isInt64 a.amount = true) :
    Amount.decode a.toJson = .ok a := by
  have amount : a.toJson.get? "amount" = some (.int a.amount) := by
    simp [toJson, Json.get?_object, Json.field?]
  refine Decoder.record_of_yields (by decide) (Json.inOrder_object _) (.map ?_ mk)
  exact .required amount (Decoder.int64_of_isInt64 h)

theorem Closed.decode_toJson (c : Closed) : Closed.decode c.toJson = .ok c := by
  have reason : c.toJson.get? "reason" = some (Json.optionalText c.reason) := by
    simp [toJson, Json.get?_object, Json.field?]
  refine Decoder.record_of_yields (by decide) (Json.inOrder_object _) (.map ?_ mk)
  exact .optional reason (Decoder.optional_optionalText c.reason)

theorem Open.isInt64_of_decode {j : Json} {c : Open} (h : Open.decode j = .ok c) :
    Word.isInt64 c.initialDeposit = true := by
  obtain ⟨get, hbuild⟩ := Decoder.build_of_record h
  obtain ⟨g, n, hg, hn, rfl⟩ := Decoder.Fields.build_ap hbuild
  have deposit : (g n).initialDeposit = n := by
    obtain ⟨mk, owner, hmk, _, rfl⟩ := Decoder.Fields.build_ap hg
    cases hmk
    rfl
  rw [deposit]
  rw [Decoder.Fields.withDefault] at hn
  cases hget : get "initial_deposit" with
  | none =>
      simp only [hget] at hn
      cases hn
      rfl
  | some j =>
      simp only [hget] at hn
      exact Decoder.isInt64_of_int64 hn

end Account
end EventSourcing
