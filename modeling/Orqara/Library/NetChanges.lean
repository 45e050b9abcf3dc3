import Mathlib

/-!
# Net changes

A history of edits that set and unset the values of keys, compacted to at most one net change
for each key. An unset of a key that the history itself has set cancels out against it, as if
the key had not been there before: the net changes are exact where it was not.
-/

namespace Orqara.NetChanges

variable {κ α : Type*}

/-! ## The net change of one key -/

inductive Net (α : Type*)
  | none
  | set (value : α)
  | unset
  deriving DecidableEq

namespace Net

/-- The net change once the key is given a value, or left without one. -/
def step : Net α → Option α → Net α
  | _, some value => .set value
  | .set _, Option.none => .none
  | _, Option.none => .unset

def apply : Net α → Option α → Option α
  | .none, old => old
  | .set value, _ => some value
  | .unset, _ => Option.none

@[simp] theorem step_some (net : Net α) (value : α) : net.step (some value) = .set value := by
  cases net with
  | none => rfl
  | set old => rfl
  | unset => rfl

end Net

/-! ## Histories -/

variable [DecidableEq κ]

/-- What a history makes of a map. -/
def values (edits : List (κ × Option α)) (m : κ → Option α) : κ → Option α :=
  edits.foldl (fun m edit => Function.update m edit.1 edit.2) m

/-- The net changes of a history. -/
def net (edits : List (κ × Option α)) : κ → Net α :=
  edits.foldl (fun net edit => Function.update net edit.1 ((net edit.1).step edit.2))
    fun _ => .none

/-- Only keys that have a value are unset. -/
def Valid : (κ → Option α) → List (κ × Option α) → Prop
  | _, [] => True
  | m, edit :: edits =>
    (edit.2 = none → (m edit.1).isSome) ∧ Valid (Function.update m edit.1 edit.2) edits

variable {m : κ → Option α} {edits : List (κ × Option α)} {k : κ}

@[simp] theorem values_append (edits edits' : List (κ × Option α)) (m : κ → Option α) :
    values (edits ++ edits') m = values edits' (values edits m) :=
  List.foldl_append

theorem net_concat (edits : List (κ × Option α)) (edit : κ × Option α) :
    net (edits ++ [edit]) =
      Function.update (net edits) edit.1 ((net edits edit.1).step edit.2) := by
  rw [net, List.foldl_append]
  rfl

theorem valid_append {edits' : List (κ × Option α)} :
    Valid m (edits ++ edits') ↔ Valid m edits ∧ Valid (values edits m) edits' := by
  induction edits generalizing m with
  | nil => simp [Valid, values]
  | cons edit edits ih =>
    rw [List.cons_append, Valid, Valid, ih, and_assoc]
    rfl

/-- How the net change of a key stands after a history: the key was not touched, or it was set
last, or a value from before the history was unset, or one from within it was. -/
inductive Standing (old : Option α) (wasSet : Prop) : Option α → Net α → Prop
  | untouched (h : ¬ wasSet) : Standing old wasSet old .none
  | set (h : wasSet) (value : α) : Standing old wasSet (some value) (.set value)
  | unset (h : ¬ wasSet) (hold : old.isSome) : Standing old wasSet none .unset
  | cancelled (h : wasSet) : Standing old wasSet none .none

theorem Standing.step_set {old value : Option α} {wasSet : Prop} {change : Net α} {new : α}
    (_ : Standing old wasSet value change) (wasSet' : Prop) (h : wasSet') :
    Standing old wasSet' (some new) (change.step (some new)) := by
  rw [Net.step_some]
  exact .set h new

theorem Standing.step_unset {old value : Option α} {wasSet : Prop} {change : Net α}
    (h : Standing old wasSet value change) (hvalue : value.isSome) :
    Standing old wasSet none (change.step none) := by
  cases h with
  | untouched hunset => exact .unset hunset hvalue
  | set hset value => exact .cancelled hset
  | unset hunset hold => exact .unset hunset hold
  | cancelled hset => cases hvalue

theorem standing (h : Valid m edits) (k : κ) :
    Standing (m k) (∃ value, (k, some value) ∈ edits) (values edits m k) (net edits k) := by
  induction edits using List.reverseRecOn with
  | nil => exact .untouched (by simp)
  | append_singleton edits edit ih =>
    obtain ⟨hvalid, hedit, -⟩ := valid_append.mp h
    have hstanding := ih hvalid
    rw [net_concat, values_append]
    show Standing _ _ (Function.update (values edits m) edit.1 edit.2 k) _
    by_cases hk : k = edit.1
    · rw [hk] at hstanding ⊢
      rw [Function.update_self, Function.update_self]
      cases hvalue : edit.2 with
      | none =>
        -- the history sets the key if the one before the edit does
        have hset : (∃ value, (edit.1, some value) ∈ edits ++ [edit]) ↔
            ∃ value, (edit.1, some value) ∈ edits := by
          apply exists_congr
          intro value
          rw [List.mem_append, List.mem_singleton]
          refine or_iff_left fun heq => ?_
          rw [← heq] at hvalue
          cases hvalue
        rw [hset]
        exact hstanding.step_unset (hedit hvalue)
      | some value =>
        apply hstanding.step_set
        exact ⟨value, by rw [← hvalue]; simp⟩
    · have hset : (∃ value, (k, some value) ∈ edits ++ [edit]) ↔
          ∃ value, (k, some value) ∈ edits := by
        apply exists_congr
        intro value
        rw [List.mem_append, List.mem_singleton]
        refine or_iff_left fun heq => hk ?_
        rw [← heq]
      rw [hset, Function.update_of_ne hk, Function.update_of_ne hk]
      exact hstanding

/-- The net change of a key comes to what the history does, unless the history takes away a value
from before it that it has set again. -/
theorem apply_net_iff (h : Valid m edits) (k : κ) :
    (net edits k).apply (m k) = values edits m k ↔
      ((m k).isSome → values edits m k = none → ∀ value, (k, some value) ∉ edits) := by
  have hstanding := standing h k
  generalize values edits m k = value at hstanding ⊢
  generalize net edits k = change at hstanding ⊢
  cases hstanding with
  | untouched hunset =>
    exact iff_of_true rfl fun _ _ value hmem => hunset ⟨value, hmem⟩
  | set hset value => exact iff_of_true rfl fun _ hnone => by cases hnone
  | unset hunset hold =>
    exact iff_of_true rfl fun _ _ value hmem => hunset ⟨value, hmem⟩
  | cancelled hset =>
    obtain ⟨value, hmem⟩ := hset
    constructor
    · intro hnone hsome
      rw [show m k = none from hnone] at hsome
      cases hsome
    · intro hnever
      by_contra hne
      exact hnever (Option.isSome_iff_ne_none.mpr hne) rfl value hmem

end Orqara.NetChanges
