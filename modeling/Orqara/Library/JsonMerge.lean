import Orqara.Library.Json

/-!
# Merging JSON values in depth

A record is merged into another one field by field, and where both hold records again, these are
merged the same way; anything else is replaced. A value that restates what it is merged into is the
result of the merge.
-/

namespace Orqara

/-- `record[key]`. -/
def Record.get? (record : Record) (key : String) : Option Json :=
  (record.find? fun field => field.1 == key).map Prod.snd

namespace Json

mutual
/-- What a merge makes of the value that is there and the one that is given. -/
def mergeValue : Option Json → Json → Json
  | some (.obj current), .obj patch => .obj (deepMerge current patch)
  | _, value => value

/-- The fields of the patch are written into the record one after the other. -/
def deepMerge : Record → List (String × Json) → Record
  | next, [] => next
  | next, (key, value) :: patch => deepMerge (next.set key (mergeValue (next.get? key) value)) patch
end

mutual
/-- No object in the value has a key twice. -/
def Distinct : Json → Bool
  | .obj fields => distinctFields fields
  | .arr values => distinctValues values
  | _ => true

def distinctValues : List Json → Bool
  | [] => true
  | value :: values => value.Distinct && distinctValues values

def distinctFields : List (String × Json) → Bool
  | [] => true
  | (key, value) :: fields =>
    !(fields.map Prod.fst).contains key && value.Distinct && distinctFields fields
end

mutual
/-- Where both are objects, the value begins with all keys of what is there, in their order, and
restates the values below them. -/
def Restates : Json → Json → Bool
  | .obj current, .obj fields => restatesFields current fields
  | _, _ => true

def restatesFields : List (String × Json) → List (String × Json) → Bool
  | [], _ => true
  | _ :: _, [] => false
  | (key, value) :: current, (key', value') :: fields =>
    key == key' && Restates value value' && restatesFields current fields
end

end Json

namespace Record

variable {written record : Record} {key : String} {value value' : Json}

section

variable (h : key ∉ record.map Prod.fst)
include h

theorem get?_of_fresh : record.get? key = none := by
  simp only [get?, Option.map_eq_none_iff, List.find?_eq_none]
  intro field hfield
  have hne : field.1 ≠ key := fun heq => h (heq ▸ List.mem_map_of_mem hfield)
  simpa using hne

theorem set_of_fresh :
    record.set key value = record ++ [(key, value)] := by
  unfold set
  rw [if_neg]
  intro hany
  obtain ⟨field, hfield, hkey⟩ := List.any_eq_true.mp hany
  exact h (eq_of_beq hkey ▸ List.mem_map_of_mem hfield)

omit h in
theorem get?_at (h : key ∉ written.map Prod.fst) :
    Record.get? (written ++ (key, value) :: record) key = some value := by
  have hnone : List.find? (fun field : String × Json => field.1 == key) written = none := by
    have := get?_of_fresh h
    simpa [get?] using this
  simp [get?, List.find?_append, hnone]

theorem map_replace_of_fresh :
    (record.map fun field => if field.1 == key then (key, value) else field) = record := by
  conv_rhs => rw [← List.map_id record]
  apply List.map_congr_left
  intro field hfield
  have hne : ¬ (field.1 == key) = true := by
    intro heq
    exact h (eq_of_beq heq ▸ List.mem_map_of_mem hfield)
  rw [if_neg hne, id]

end

theorem set_at (hwritten : key ∉ written.map Prod.fst) (hrecord : key ∉ record.map Prod.fst) :
    Record.set (written ++ (key, value) :: record) key value' =
      written ++ (key, value') :: record := by
  unfold set
  rw [if_pos (by simp), List.map_append, List.map_cons, map_replace_of_fresh hwritten,
    map_replace_of_fresh hrecord]
  simp

end Record

namespace Json

open Record

/-- The keys that are restated come first. -/
theorem keys_restated {current fields : List (String × Json)} {key : String}
    (h : restatesFields current fields = true) (hkey : key ∈ current.map Prod.fst) :
    key ∈ fields.map Prod.fst := by
  induction current generalizing fields with
  | nil => contradiction
  | cons field current ih =>
    cases fields with
    | nil => simp [restatesFields] at h
    | cons field' fields =>
      simp only [restatesFields, Bool.and_eq_true, beq_iff_eq] at h
      rw [List.map_cons, List.mem_cons] at hkey ⊢
      exact hkey.imp (fun heq => heq.trans h.1.1) (ih h.2)

theorem mergeValue_of_not_obj {value : Json} (current : Option Json)
    (h : ∀ fields, value ≠ .obj fields) : mergeValue current value = value := by
  unfold mergeValue
  split
  · next fields => exact absurd rfl (h fields)
  · rfl

theorem mergeValue_of_no_record {current : Option Json} (value : Json)
    (h : ∀ record, current ≠ some (.obj record)) : mergeValue current value = value := by
  unfold mergeValue
  split
  · next record _ => exact absurd rfl (h record)
  · rfl

mutual
/-- A value that restates what is there replaces it. -/
theorem mergeValue_restates : ∀ {value : Json} (current : Option Json), value.Distinct = true →
    (∀ c, current = some c → Restates c value = true) → mergeValue current value = value
  | .obj fields, some (.obj record), hdistinct, hrestates => by
    have hfields : restatesFields record fields = true := by
      simpa [Restates] using hrestates _ rfl
    have hmerged := deepMerge_restates [] record (by simpa [Distinct] using hdistinct) (by simp)
      hfields
    rw [mergeValue]
    exact congrArg Json.obj hmerged
  | .obj _, none, _, _ => mergeValue_of_no_record _ (by simp)
  | .obj _, some .null, _, _ => mergeValue_of_no_record _ (by simp)
  | .obj _, some (.bool _), _, _ => mergeValue_of_no_record _ (by simp)
  | .obj _, some (.num _), _, _ => mergeValue_of_no_record _ (by simp)
  | .obj _, some (.str _), _, _ => mergeValue_of_no_record _ (by simp)
  | .obj _, some (.arr _), _, _ => mergeValue_of_no_record _ (by simp)
  | .null, current, _, _ => mergeValue_of_not_obj current (by simp)
  | .bool _, current, _, _ => mergeValue_of_not_obj current (by simp)
  | .num _, current, _, _ => mergeValue_of_not_obj current (by simp)
  | .str _, current, _, _ => mergeValue_of_not_obj current (by simp)
  | .arr _, current, _, _ => mergeValue_of_not_obj current (by simp)

/-- The fields before the ones that are merged are those that were written already. -/
theorem deepMerge_restates : ∀ {fields : List (String × Json)} (written record : Record),
    distinctFields fields = true → (∀ key ∈ written.map Prod.fst, key ∉ fields.map Prod.fst) →
    restatesFields record fields = true →
      deepMerge (written ++ record) fields = written ++ fields
  | [], written, record, _, _, hrestates => by
    match record, hrestates with
    | [], _ => rw [deepMerge]
  | (key, value) :: fields, written, record, hdistinct, hfresh, hrestates => by
    simp only [distinctFields, Bool.and_eq_true, Bool.not_eq_true', List.contains_eq_mem,
      decide_eq_false_iff_not] at hdistinct
    obtain ⟨⟨hkey, hvalue⟩, hfields⟩ := hdistinct
    have hwritten : key ∉ written.map Prod.fst := fun hmem => hfresh key hmem (by simp)
    have hfresh' : ∀ k ∈ (written ++ [(key, value)]).map Prod.fst, k ∉ fields.map Prod.fst := by
      intro k hk
      rw [List.map_append, List.mem_append] at hk
      rcases hk with hk | hk
      · exact fun hmem => hfresh k hk (List.mem_cons_of_mem _ hmem)
      · have heq : k = key := by simpa using hk
        exact heq ▸ hkey
    rw [deepMerge]
    match record, hrestates with
    | [], _ =>
      rw [List.append_nil, get?_of_fresh hwritten, set_of_fresh hwritten,
        mergeValue_restates none hvalue (by simp)]
      have hrest := deepMerge_restates (written ++ [(key, value)]) [] hfields hfresh'
        (by simp [restatesFields])
      simpa using hrest
    | (key', old) :: record, hrestates =>
      simp only [restatesFields, Bool.and_eq_true, beq_iff_eq] at hrestates
      obtain ⟨⟨rfl, hold⟩, hrecord⟩ := hrestates
      have hother : key' ∉ record.map Prod.fst := fun hmem => hkey (keys_restated hrecord hmem)
      rw [get?_at hwritten, set_at hwritten hother,
        mergeValue_restates (some old) hvalue (by simpa using hold)]
      have hrest := deepMerge_restates (written ++ [(key', value)]) record hfields hfresh' hrecord
      simpa using hrest
end

end Json

end Orqara
