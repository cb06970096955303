import HSFinancialServices.ResponseType
import HSFinancialServices.Services.Handlers
import HSFinancialServices.Ui.Commands
import HSFinancialServices.Ui.Fields

/-!
# What the UI client reports

A command reads its response, rejects it or scans it with loops over the payload, and
then prints its success line. Login and ping look at no response type, the other commands
only for the one of errors.
-/

namespace HSFinancialServices.Ui
open Ascii Services TextSearch

def kRespError : UInt16 := 0xFFFF

/-- One turn of a loop that counts occurrences: it goes on one byte behind the last. -/
def nextOccurrence (needle text : Bytes) : Option (Unit × Bytes) :=
  (find needle text).map fun pos => ((), text.drop (pos + 1))

def countOccurrences (needle text : Bytes) : ℕ := (collectAll (nextOccurrence needle) text).length

def nextEntry (opening text : Bytes) : Option (Bytes × Bytes) :=
  match find opening text with
  | none => none
  | some start =>
    match find [closeBrace] (text.drop start) with
    | none => none
    | some len => some ((text.drop start).take (len + 1), text.drop (start + len + 1))

structure PositionEntry where
  symbol : Bytes
  qty : Bytes
  avgCost : Bytes
  current : Bytes
  pnl : Bytes
  deriving DecidableEq, Repr

def positionEntry (entry : Bytes) : PositionEntry :=
  { symbol := extractField entry (ascii "symbol")
    qty := extractField entry (ascii "qty")
    avgCost := extractField entry (ascii "avg_cost")
    current := extractField entry (ascii "current")
    pnl := extractField entry (ascii "pnl") }

structure CandleEntry where
  date : Bytes
  open_ : Bytes
  high : Bytes
  low : Bytes
  close_ : Bytes
  volume : Bytes
  deriving DecidableEq, Repr

def candleEntry (entry : Bytes) : CandleEntry :=
  { date := extractField entry (ascii "date")
    open_ := extractField entry (ascii "open")
    high := extractField entry (ascii "high")
    low := extractField entry (ascii "low")
    close_ := extractField entry (ascii "close")
    volume := extractField entry (ascii "volume") }

inductive Report
  | loginSuccessful (response : Bytes)
  | logoutSuccessful
  | pongReceived (response : Bytes)
  | queryComplete (response : Bytes) (rowCount : ℕ)
  | orderAcknowledged (side : Side) (orderId sideField symbol qty price status : Bytes)
  | positionComplete (entries : List PositionEntry) (cash : Bytes)
  | priceHistoryComplete (shown : List CandleEntry) (candles : ℕ)
  deriving DecidableEq, Repr

def orderReport (side : Side) (symbol respPayload : Bytes) : Report :=
  .orderAcknowledged side (extractField respPayload (ascii "order_id"))
    (extractField respPayload (ascii "side")) symbol (extractField respPayload (ascii "qty"))
    (extractField respPayload (ascii "price")) (extractField respPayload (ascii "status"))

def Command.report (respPayload : Bytes) : Command → Report
  | login => .loginSuccessful respPayload
  | logout => .logoutSuccessful
  | ping => .pongReceived respPayload
  | sqlQuery _ =>
    .queryComplete respPayload (countOccurrences (ascii "\"symbol\":") respPayload)
  | buyOrder symbol _ _ _ => orderReport .buy symbol respPayload
  | sellOrder symbol _ _ _ => orderReport .sell symbol respPayload
  | getPosition _ =>
    .positionComplete
      ((collectAll (nextEntry (ascii "\x7b\"symbol\":")) respPayload).map positionEntry)
      (extractField respPayload (ascii "cash"))
  | getPriceHistory _ _ =>
    -- the second loop stops after five entries
    .priceHistoryComplete
      ((collect (nextEntry (ascii "\x7b\"date\":")) 5 respPayload).map candleEntry)
      (countOccurrences (ascii "\"date\":") respPayload)

inductive Outcome
  | notConnected
  | socketError
  | serverError (respPayload : Bytes)
  | success (report : Report)
  deriving DecidableEq, Repr

def Command.checksErrors : Command → Bool
  | login | logout | ping => false
  | sqlQuery _ | buyOrder _ _ _ _ | sellOrder _ _ _ _ | getPosition _ | getPriceHistory _ _ => true

/-- How a connected command ends, by what `SendMsg(..) && RecvMsg(..)` delivered. The logout
waits for nothing. -/
def Command.conclude (command : Command) (delivered : Option (UInt16 × Bytes)) : Outcome :=
  match command, delivered with
  | .logout, _ => .success .logoutSuccessful
  | _, none => .socketError
  | command, some (respType, respPayload) =>
    if command.checksErrors ∧ respType = kRespError then .serverError respPayload
    else .success (command.report respPayload)

def Command.outcome (command : Command) (connected : Bool) (delivered : Option (UInt16 × Bytes)) :
    Outcome :=
  if connected then command.conclude delivered else .notConnected

def Outcome.isSuccess : Outcome → Bool
  | success _ => true
  | _ => false

theorem nextOccurrence_shrinks {needle : Bytes} (h : needle ≠ []) :
    Shrinks (nextOccurrence needle) := by
  intro text item rest hnext
  obtain ⟨pos, hpos, hrest⟩ := Option.map_eq_some_iff.mp hnext
  obtain ⟨tail, htail⟩ := ((find_eq_some_iff h).mp hpos).1
  have hlength := congrArg List.length htail
  have hne := List.length_pos_iff.mpr h
  simp only [List.length_append, List.length_drop] at hlength
  rw [← (Prod.mk.inj hrest).2, List.length_drop]
  omega

theorem nextEntry_shrinks {opening : Bytes} (h : opening ≠ []) : Shrinks (nextEntry opening) := by
  intro text item rest hnext
  simp only [nextEntry] at hnext
  split at hnext
  · cases hnext
  · rename_i start hstart
    split at hnext
    · cases hnext
    · rename_i len hlen
      obtain ⟨tail, htail⟩ := ((find_eq_some_iff h).mp hstart).1
      have hlength := congrArg List.length htail
      have hne := List.length_pos_iff.mpr h
      simp only [List.length_append, List.length_drop] at hlength
      rw [Option.some.injEq] at hnext
      rw [← (Prod.mk.inj hnext).2, List.length_drop]
      omega

section Success
variable {command : Command}

theorem conclude_isSuccess (hreads : command ≠ .logout) (respType : UInt16) (respPayload : Bytes) :
    (command.conclude (some (respType, respPayload))).isSuccess = true ↔
      ¬ (command.checksErrors = true ∧ respType = kRespError) := by
  have hconclude : command.conclude (some (respType, respPayload)) =
      if command.checksErrors ∧ respType = kRespError then .serverError respPayload
      else .success (command.report respPayload) := by
    cases command with
    | logout => exact absurd rfl hreads
    | login | ping | sqlQuery | buyOrder | sellOrder | getPosition | getPriceHistory => rfl
  rw [hconclude]
  split_ifs with hrejected
  · simp only [Outcome.isSuccess, hrejected, and_self, not_true_eq_false, reduceCtorEq]
  · simp only [Outcome.isSuccess, hrejected, not_false_eq_true]

theorem kRespError_ne_canonicalResponse (command : Command) (seq : ℤ) :
    kRespError ≠ MessageType.canonicalResponse (command.request seq).1 := by
  cases command <;> simp only [Command.request] <;> decide

/-- A command that waits for a response tells a wrong one only if it is an error, and only if
the command is not a login or a ping. -/
theorem success_only_for_answer_iff (command : Command) (hreads : command ≠ .logout) (seq : ℤ)
    (respType : UInt16) (respPayload : Bytes) :
    ((command.conclude (some (respType, respPayload))).isSuccess = true →
        respType = MessageType.canonicalResponse (command.request seq).1) ↔
      respType = MessageType.canonicalResponse (command.request seq).1 ∨
        (respType = kRespError ∧ command ≠ .login ∧ command ≠ .ping) := by
  have hchecks : command.checksErrors = true ↔ command ≠ .login ∧ command ≠ .ping := by
    cases command with
    | logout => exact absurd rfl hreads
    | login | ping | sqlQuery | buyOrder | sellOrder | getPosition | getPriceHistory =>
      simp [Command.checksErrors]
  rw [conclude_isSuccess hreads, hchecks]
  constructor
  · intro h
    by_cases hrejected : (command ≠ .login ∧ command ≠ .ping) ∧ respType = kRespError
    · exact .inr ⟨hrejected.2, hrejected.1⟩
    · exact .inl (h hrejected)
  · rintro (hright | ⟨herror, hcommand⟩) hsuccess
    · exact hright
    · exact absurd ⟨hcommand, herror⟩ hsuccess

theorem success_only_for_answer_query :
    ((Command.sqlQuery selectAapl).conclude (some (0x8001, ascii "late"))).isSuccess = true ∧
      (0x8001 : UInt16) = MessageType.canonicalResponse kMsgSqlQuery := by
  have hsuccess :
      ((Command.sqlQuery selectAapl).conclude (some (0x8001, ascii "late"))).isSuccess = true := by
    decide
  have honly := success_only_for_answer_iff (.sqlQuery selectAapl) (by decide) 100 0x8001
    (ascii "late")
  exact ⟨hsuccess, honly.mpr (.inl (by decide)) hsuccess⟩

theorem login_succeeds_on_error :
    ¬ ∀ (command : Command) (seq : ℤ) (respType : UInt16) (respPayload : Bytes),
      command ≠ .logout → (command.conclude (some (respType, respPayload))).isSuccess = true →
        respType = MessageType.canonicalResponse (command.request seq).1 := by
  intro h
  have hpong := h .login 100 kRespError unknownMessageType (by decide) (by rfl)
  exact kRespError_ne_canonicalResponse .login 100 hpong

end Success

end HSFinancialServices.Ui
