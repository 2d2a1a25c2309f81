/-
A window shows the latest events.

Events reach a window through a service, which holds back those that its level
does not admit, or directly, and a window can be cleared at any time.  `admitted`
lists what has come in since it was last cleared.  `shows_latest` says that after
any such history the window holds the end of that list, as long as its capacity
allows, and that whatever can be asked of a window is asked of that end.
-/
import Mathlib.Data.List.DropRight
import Mathlib.Data.List.Induction
import RuleLex.Log.Window

namespace RuleLex
namespace Log
namespace Window

/-- What happens to a window behind a service. -/
inductive Action where
  | log (event : Event)
  | direct (event : Event)
  | clear
deriving DecidableEq, Repr

namespace Action

/-- The event that an action brings in, with the service at level `threshold`. -/
def event? (threshold : Level) : Action → Option Event
  | .log e => if threshold.admits e.level then some e else none
  | .direct e => some e
  | .clear => none

def isClear (a : Action) : Bool := a == .clear

end Action

def perform (threshold : Level) (w : Window) : Action → Window
  | .log e => w.log threshold e
  | .direct e => w.push e
  | .clear => w.clear

/-- The window after some actions. -/
def after (threshold : Level) (w : Window) (actions : List Action) : Window :=
  actions.foldl (perform threshold) w

/-- The events that have come in since the last time the window was cleared. -/
def admitted (threshold : Level) (actions : List Action) : List Event :=
  (actions.rtakeWhile fun a => !a.isClear).filterMap (Action.event? threshold)

/-! ## One event more -/

/-- One entry more pushes the same entries out of the end of a list as out of the
list. -/
theorem rtake_rtake_concat {α : Type} (l : List α) (a : α) (n : Nat) :
    (l.rtake n ++ [a]).rtake n = (l ++ [a]).rtake n := by
  have join : l.rtake n ++ [a] = (l ++ [a]).drop (l.length - n) := by
    rw [List.drop_append_of_le_length (Nat.sub_le _ _)]
    rfl
  rw [join]
  simp only [List.rtake, List.drop_drop, List.length_drop, List.length_append,
    List.length_singleton]
  congr 1
  omega

/-- A window lets go of what its capacity does not allow, from the front.  With
room for one event the newest is never among it. -/
theorem toList_push {w : Window} (hcapacity : 0 < w.capacity) (e : Event) :
    (w.push e).toList = (w.toList ++ [e]).rtake w.capacity := by
  have size : w.toList.length = w.size := rfl
  have length : (w.toList ++ [e]).length = w.size + 1 := by rw [List.length_append, size]; rfl
  rw [List.rtake, length, push]
  split
  · rename_i room
    rw [show w.size + 1 - w.capacity = 0 by omega, List.drop_zero]
    exact Array.toList_push
  · have inside : w.size + 1 - w.capacity ≤ w.toList.length := by omega
    rw [List.drop_append_of_le_length inside]
    show ((w.events.extract _ w.size).push e).toList = _
    rw [Array.toList_push, Array.toList_extract, List.extract_eq_take_drop, ← size]
    congr 1
    exact List.take_of_length_le (by rw [List.length_drop]; exact Nat.le_refl _)

theorem capacity_push (w : Window) (e : Event) : (w.push e).capacity = w.capacity := by
  unfold push
  split <;> rfl

/-! ## Any history -/

variable {threshold : Level}

/-- The window holds the end of a list of events that its capacity allows. -/
structure Holds (capacity : Nat) (events : List Event) (w : Window) : Prop where
  capacity_eq : w.capacity = max capacity 1
  toList_eq : w.toList = events.rtake (max capacity 1)

theorem holds_empty (capacity : Nat) : Holds capacity [] (empty capacity) :=
  ⟨rfl, (List.rtake_nil _).symm⟩

theorem Holds.push {capacity : Nat} {events : List Event} {w : Window}
    (h : Holds capacity events w) (e : Event) : Holds capacity (events ++ [e]) (w.push e) := by
  have room : 0 < w.capacity := by
    rw [h.capacity_eq]
    omega
  refine ⟨(capacity_push w e).trans h.capacity_eq, ?_⟩
  rw [toList_push room, h.toList_eq, h.capacity_eq, rtake_rtake_concat]

theorem admitted_concat_clear (actions : List Action) :
    admitted threshold (actions ++ [.clear]) = [] := by
  rw [admitted, List.rtakeWhile_concat_neg _ _ _ (by simp [Action.isClear])]
  rfl

theorem admitted_concat (actions : List Action) {a : Action} (h : a ≠ .clear) :
    admitted threshold (actions ++ [a]) =
      admitted threshold actions ++ (a.event? threshold).toList := by
  rw [admitted, List.rtakeWhile_concat_pos _ _ _ (by simp [Action.isClear, h]),
    List.filterMap_append]
  rfl

/-- One more action: the window goes on holding the end of what has come in. -/
theorem Holds.perform {capacity : Nat} {actions : List Action} {w : Window}
    (h : Holds capacity (admitted threshold actions) w) (a : Action) :
    Holds capacity (admitted threshold (actions ++ [a])) (w.perform threshold a) := by
  cases a with
  | clear =>
    rw [admitted_concat_clear]
    exact ⟨h.capacity_eq, (List.rtake_nil _).symm⟩
  | direct e =>
    rw [admitted_concat actions (a := .direct e) nofun]
    exact h.push e
  | log e =>
    rw [admitted_concat actions (a := .log e) nofun, Window.perform, Window.log, Action.event?]
    split
    · exact h.push e
    · rw [Option.toList_none, List.append_nil]
      exact h

theorem holds_after (capacity : Nat) (threshold : Level) (actions : List Action) :
    Holds capacity (admitted threshold actions) ((empty capacity).after threshold actions) := by
  -- The history grows at its end, where the last clearing counts.
  induction actions using List.reverseRecOn with
  | nil => exact holds_empty capacity
  | append_singleton actions a ih =>
    rw [after, List.foldl_append]
    exact ih.perform a

/-! ## Asking -/

/-- How many events of a level a summary counts. -/
def Summary.count (s : Summary) : Level → Nat
  | .error => s.errors
  | .warning => s.warnings
  | .info => s.infos
  | .debug => s.debugs

/-- Asking the window is asking a list of events. -/
structure Shows (kept : List Event) (w : Window) : Prop where
  toList_eq : w.toList = kept
  size_eq : w.size = kept.length
  errors_eq : w.errors = kept.filter fun e => e.level = .error
  withCode_eq : ∀ code, w.withCode code = kept.filter fun e => e.code = code
  inCategory_eq : ∀ category,
    w.inCategory category = kept.filter fun e => Code.category e.code = category
  hasError_iff : ∀ code,
    w.hasErrorWithCode code = true ↔ ∃ e ∈ kept, e.level = .error ∧ e.code = code
  hasSuccess_iff : ∀ code,
    w.hasSuccessWithCode code = true ↔ ∃ e ∈ kept, e.level = .info ∧ e.code = code
  total_eq : w.summary.total = kept.length
  count_eq : ∀ level, w.summary.count level = (kept.filter fun e => e.level = level).length
  adds_up : w.summary.errors + w.summary.warnings + w.summary.infos + w.summary.debugs =
    w.summary.total

/-- Every event has one of the four levels. -/
theorem count_levels (events : List Event) :
    events.countP Event.isError + events.countP Event.isWarning + events.countP Event.isInfo +
      events.countP Event.isDebug = events.length := by
  induction events with
  | nil => rfl
  | cons e events ih =>
    simp only [List.countP_cons, List.length_cons]
    cases hlevel : e.level <;>
      simp [Event.isError, Event.isWarning, Event.isInfo, Event.isDebug, hlevel] at ih ⊢ <;> omega

theorem shows_toList (w : Window) : Shows w.toList w := by
  have level_eq (level : Level) : w.toList.countP (fun e => e.level == level) =
      (w.toList.filter fun e => e.level = level).length := by
    rw [List.countP_eq_length_filter]
    rfl
  constructor
  · rfl
  · rfl
  · rfl
  · exact fun code => rfl
  · exact fun category => rfl
  · intro code
    simp [hasErrorWithCode, Event.isError]
  · intro code
    simp [hasSuccessWithCode, Event.isInfo]
  · rfl
  · intro level
    cases level with
    | error => exact level_eq .error
    | warning => exact level_eq .warning
    | info => exact level_eq .info
    | debug => exact level_eq .debug
  · exact count_levels w.toList

/-- After any history the window shows the latest of what has come in since it
was cleared, as many events as there is room for. -/
theorem shows_latest (capacity : Nat) (threshold : Level) (actions : List Action) :
    let w := (empty capacity).after threshold actions
    let events := admitted threshold actions
    let kept := events.rtake (max capacity 1)
    Shows kept w ∧ kept <:+ events ∧ kept.length = min (max capacity 1) events.length ∧
      w.size ≤ max capacity 1 := by
  intro w events kept
  have shows : Shows kept w := by
    have own := w.shows_toList
    rwa [(holds_after capacity threshold actions).toList_eq] at own
  have length : kept.length = min (max capacity 1) events.length := by
    simp only [kept, List.rtake, List.length_drop]
    omega
  refine ⟨shows, List.drop_suffix _ _, length, ?_⟩
  rw [shows.size_eq, length]
  exact Nat.min_le_left _ _

end Window
end Log
end RuleLex
