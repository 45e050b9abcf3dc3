import Mathlib

/-!
# Scanning a text that arrives in pieces

Sequences are read off a text from left to right; what begins no sequence is
skipped. When the text so far may still be completed to a sequence it is carried
over. Then the pieces of a text give the same sequences as the whole.
-/

namespace Orqara

/-- What stands at the start of a text. -/
inductive Reading (α β : Type*)
  | complete (sequence : β) (rest : List α)
  | incomplete
  | mismatch

/-- More text changes neither a sequence that is complete nor a mismatch. -/
structure Stable {α β : Type*} (read : List α → Reading α β) : Prop where
  complete : ∀ {text sequence rest}, read text = .complete sequence rest → ∀ more,
    read (text ++ more) = .complete sequence (rest ++ more)
  mismatch : ∀ {text}, text ≠ [] → read text = .mismatch → ∀ more,
    read (text ++ more) = .mismatch
  shorter : ∀ {text sequence rest}, read text = .complete sequence rest →
    rest.length < text.length

variable {α β : Type*}

/-- The sequences in a text, and what is carried over. The number bounds the length. -/
def scanWithin (read : List α → Reading α β) : ℕ → List α → List β × List α
  | 0, text => ([], text)
  | _ + 1, [] => ([], [])
  | fuel + 1, c :: text =>
    match read (c :: text) with
    | .complete sequence rest =>
      let (sequences, carry) := scanWithin read fuel rest
      (sequence :: sequences, carry)
    | .incomplete => ([], c :: text)
    | .mismatch => scanWithin read fuel text

def scan (read : List α → Reading α β) (text : List α) : List β × List α :=
  scanWithin read text.length text

section Scan

variable {read : List α → Reading α β} {text : List α}

section

variable (stable : Stable read)
include stable

theorem scanWithin_fuel {fuel : ℕ} (h : text.length ≤ fuel) :
    scanWithin read fuel text = scan read text := by
  unfold scan
  induction fuel using Nat.strong_induction_on generalizing text with
  | _ fuel ih =>
    cases text with
    | nil => cases fuel <;> rfl
    | cons c text =>
      cases fuel with
      | zero => simp at h
      | succ fuel =>
        simp only [List.length_cons, Nat.add_le_add_iff_right] at h
        rw [List.length_cons, scanWithin, scanWithin]
        cases hread : read (c :: text) with
        | complete sequence rest =>
          have hshort := stable.shorter hread
          rw [List.length_cons] at hshort
          dsimp only
          rw [ih fuel (by omega) (show rest.length ≤ fuel by omega),
            ih text.length (by omega) (show rest.length ≤ text.length by omega)]
        | incomplete => rfl
        | mismatch => exact ih fuel (by omega) h

omit stable in
@[simp] theorem scan_nil : scan read [] = ([], []) := rfl

theorem scan_complete {sequence : β} {rest : List α}
    (h : read text = .complete sequence rest) :
    scan read text = (sequence :: (scan read rest).1, (scan read rest).2) := by
  have hshort := stable.shorter h
  cases text with
  | nil => simp at hshort
  | cons c text =>
    rw [List.length_cons] at hshort
    rw [scan, List.length_cons, scanWithin, h]
    dsimp only
    rw [scanWithin_fuel stable (show rest.length ≤ text.length by omega)]

omit stable in
theorem scan_incomplete {c : α} (h : read (c :: text) = .incomplete) :
    scan read (c :: text) = ([], c :: text) := by
  rw [scan, List.length_cons, scanWithin, h]

omit stable in
theorem scan_mismatch {c : α} (h : read (c :: text) = .mismatch) :
    scan read (c :: text) = scan read text := by
  rw [scan, List.length_cons, scanWithin, h]
  rfl

/-- The pieces of a text, with what is carried over between them, give its sequences. -/
theorem scan_append (text more : List α) :
    scan read (text ++ more) =
      ((scan read text).1 ++ (scan read ((scan read text).2 ++ more)).1,
        (scan read ((scan read text).2 ++ more)).2) := by
  induction hn : text.length using Nat.strong_induction_on generalizing text with
  | _ n ih =>
    cases text with
    | nil => simp
    | cons c text =>
      cases hread : read (c :: text) with
      | complete sequence rest =>
        have hshort := stable.shorter hread
        rw [scan_complete stable hread, scan_complete stable (stable.complete hread more),
          ih rest.length (by omega) rest rfl]
        rfl
      | incomplete => rw [scan_incomplete hread]; rfl
      | mismatch =>
        have hmore := stable.mismatch (List.cons_ne_nil c text) hread more
        rw [List.cons_append] at hmore ⊢
        rw [scan_mismatch hread, scan_mismatch hmore]
        exact ih text.length (by rw [← hn]; simp) text rfl

/-- What is carried over is a text that may still be completed. -/
theorem scan_carry (text : List α) :
    (scan read text).2 = [] ∨ read (scan read text).2 = .incomplete := by
  induction hn : text.length using Nat.strong_induction_on generalizing text with
  | _ n ih =>
    cases text with
    | nil => exact .inl rfl
    | cons c text =>
      cases hread : read (c :: text) with
      | complete sequence rest =>
        rw [scan_complete stable hread]
        exact ih rest.length (by rw [← hn]; exact stable.shorter hread) rest rfl
      | incomplete =>
        rw [scan_incomplete hread]
        exact .inr hread
      | mismatch =>
        rw [scan_mismatch hread]
        exact ih text.length (by rw [← hn]; simp) text rfl

/-- The carry is an end of the text. -/
theorem scan_carry_suffix
    (rest_suffix : ∀ {text sequence rest}, read text = .complete sequence rest → rest <:+ text)
    (text : List α) : (scan read text).2 <:+ text := by
  induction hn : text.length using Nat.strong_induction_on generalizing text with
  | _ n ih =>
    cases text with
    | nil => exact List.suffix_rfl
    | cons c text =>
      cases hread : read (c :: text) with
      | complete sequence rest =>
        rw [scan_complete stable hread]
        have hrest := ih rest.length (by rw [← hn]; exact stable.shorter hread) rest rfl
        exact hrest.trans (rest_suffix hread)
      | incomplete =>
        rw [scan_incomplete hread]
      | mismatch =>
        rw [scan_mismatch hread]
        exact (ih text.length (by rw [← hn]; simp) text rfl).trans (List.suffix_cons c text)

end

end Scan

end Orqara
