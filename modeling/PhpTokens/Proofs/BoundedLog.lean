import Mathlib.Data.List.DropRight
import PhpTokens.Log.Buffer

/-!
# A bounded log keeps the latest events

A buffer makes room before it takes an event, so how much it drops is settled
call by call. Over a whole run that comes to a simple rule, which speaks of the
calls alone: of the events accepted since the buffer was last emptied
(`accepted`), it holds the last ones, as many as it has room for.

One call carries this on. A push appends and then keeps the last events that
fit (`toList_push`), and nothing is lost by having cut before: what an earlier
cut dropped, a later one would drop too (`rtake_concat_rtake`).
-/

namespace PhpTokens.Log

/-- The levels that matter at least as much as this one, the gravest first. -/
def Level.downTo : Level → List Level
  | .error => [.error]
  | .warning => [.error, .warning]
  | .info => [.error, .warning, .info]
  | .debug => [.error, .warning, .info, .debug]

theorem Level.admits_iff {least l : Level} : least.admits l = true ↔ l ∈ least.downTo := by
  cases least <;> cases l <;> decide

/-- The last `n` of a list and one more, cut to `n` again. -/
theorem rtake_concat_rtake {α : Type} {n : Nat} (hn : 0 < n) (xs : List α) (x : α) :
    (xs.rtake n ++ [x]).rtake n = (xs ++ [x]).rtake n := by
  obtain ⟨m, rfl⟩ : ∃ m, n = m + 1 := ⟨n - 1, by omega⟩
  rw [List.rtake_concat_succ, List.rtake_concat_succ]
  have hcut : (xs.rtake (m + 1)).rtake m = xs.rtake m := by
    simp only [List.rtake, List.length_drop, List.drop_drop]
    congr 1
    omega
  rw [hcut]

namespace Buffer

/-- A push appends, and then the last events that fit are kept. -/
theorem toList_push [Limits] (b : Buffer) (e : Event) :
    (b.push e).events.toList = (b.events.toList ++ [e]).rtake Limits.bufferedEvents := by
  have hpos := Limits.bufferedEvents_pos
  have hlength : b.events.toList.length = b.events.size := rfl
  rw [push, List.rtake, List.length_append, List.length_singleton, hlength]
  by_cases hroom : b.events.size < Limits.bufferedEvents
  · have hnone : b.events.size + 1 - Limits.bufferedEvents = 0 := by omega
    rw [if_pos hroom, Array.toList_push, hnone, List.drop_zero]
  · rw [if_neg hroom, Array.toList_push, Array.toList_extract, List.extract_eq_take_drop,
      List.drop_append_of_le_length (by omega), List.take_of_length_le]
    simp

end Buffer

namespace BufferCall

/-- The event that a call adds to a buffer behind a service that is kept down to
a level: whatever is recorded directly, and what is offered at that level or a
graver one. -/
def accepted? (least : Level) : BufferCall → Option Event
  | .offer e => if e.level ∈ least.downTo then some e else none
  | .record e => some e
  | .clear => none

/-- The events that are accepted after the last emptying, in their order. -/
def accepted (least : Level) (calls : List BufferCall) : List Event :=
  (calls.rtakeWhile fun call => call ≠ .clear).filterMap (accepted? least)

theorem accepted_concat_clear (least : Level) (calls : List BufferCall) :
    accepted least (calls ++ [.clear]) = [] := by
  rw [accepted, List.rtakeWhile_concat, if_neg (by decide), List.filterMap_nil]

theorem accepted_concat {call : BufferCall} (hcall : call ≠ .clear) (least : Level)
    (calls : List BufferCall) :
    accepted least (calls ++ [call]) = accepted least calls ++ (call.accepted? least).toList := by
  rw [accepted, List.rtakeWhile_concat, if_pos (decide_eq_true hcall), List.filterMap_append,
    accepted]
  cases h : call.accepted? least <;> simp [h]

/-- One call adds what it accepts, unless it empties the buffer. -/
theorem toList_apply [Limits] {call : BufferCall} (hcall : call ≠ .clear) (least : Level)
    (b : Buffer) :
    (call.apply least b).events.toList =
      match call.accepted? least with
      | some e => (b.events.toList ++ [e]).rtake Limits.bufferedEvents
      | none => b.events.toList := by
  cases call with
  | offer e =>
      simp only [apply, accepted?, ← Level.admits_iff]
      by_cases hadmits : least.admits e.level = true
      · rw [if_pos hadmits, if_pos hadmits]
        exact b.toList_push e
      · rw [if_neg hadmits, if_neg hadmits]
  | record e => exact b.toList_push e
  | clear => exact absurd rfl hcall

/-- After any run of calls a buffer holds the last of the accepted events. -/
theorem toList_foldl_apply [Limits] (least : Level) (calls : List BufferCall) :
    (calls.foldl (apply least) .empty).events.toList =
      (accepted least calls).rtake Limits.bufferedEvents := by
  -- From the end of the run, since it is the last emptying that counts.
  induction calls using List.reverseRecOn with
  | nil => exact (List.rtake_nil _).symm
  | append_singleton calls call ih =>
      rw [List.foldl_append, List.foldl_cons, List.foldl_nil]
      by_cases hcall : call = .clear
      · subst hcall
        rw [accepted_concat_clear, List.rtake_nil]
        rfl
      · rw [accepted_concat hcall, toList_apply hcall]
        cases call.accepted? least with
        | none => rw [Option.toList_none, List.append_nil, ih]
        | some e =>
            rw [Option.toList_some, ih]
            exact rtake_concat_rtake Limits.bufferedEvents_pos _ e

/-- Whatever mixture of offers, direct records and emptyings a buffer is given, it holds the
last `min n bufferedEvents` of the `n` events accepted since it was last emptied, in the order of
their arrival, and never more than it has room for. -/
theorem buffer_holds_last_accepted [Limits] (least : Level) (calls : List BufferCall) :
    (calls.foldl (apply least) .empty).events.toList =
        (accepted least calls).rtake
          (min (accepted least calls).length Limits.bufferedEvents) ∧
      (calls.foldl (apply least) .empty).size ≤ Limits.bufferedEvents := by
  have hevents := toList_foldl_apply least calls
  refine ⟨?_, ?_⟩
  · have hdropped : (accepted least calls).length - Limits.bufferedEvents =
        (accepted least calls).length -
          min (accepted least calls).length Limits.bufferedEvents := by omega
    rw [hevents, List.rtake, List.rtake, hdropped]
  · rw [Buffer.size, ← Array.length_toList, hevents, List.rtake, List.length_drop]
    omega

end BufferCall

end PhpTokens.Log
