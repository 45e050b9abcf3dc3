import Orqara.Services.PortRegistry

/-!
# Owners of dynamic ports

The owners of the ports and the ports of the workspaces, through each operation on
the two maps and through the calls in progress.
-/

namespace Orqara.Services

open Function

/-- Workspace ids without the separator of `toServiceOwner`. -/
def NulFree (workspaceId : String) : Prop := '\x00' ∉ workspaceId.toList

theorem eq_of_append_separator {α : Type*} {c : α} : ∀ {xs xs' ys ys' : List α}, c ∉ xs → c ∉ xs' →
    xs ++ c :: ys = xs' ++ c :: ys' → xs = xs' ∧ ys = ys' := by
  intro xs
  induction xs with
  | nil =>
    intro xs' ys ys' _ hxs' h
    cases xs' with
    | nil => exact ⟨rfl, (List.cons.inj h).2⟩
    | cons x xs' =>
      have : c = x := (List.cons.inj h).1
      exact absurd (this ▸ List.mem_cons_self) hxs'
  | cons x xs ih =>
    intro xs' ys ys' hxs hxs' h
    cases xs' with
    | nil =>
      have : x = c := (List.cons.inj h).1
      exact absurd (this ▸ List.mem_cons_self) hxs
    | cons x' xs' =>
      obtain ⟨hhead, htail⟩ := List.cons.inj h
      have hrest := ih (fun hmem => hxs (List.mem_cons_of_mem _ hmem))
        (fun hmem => hxs' (List.mem_cons_of_mem _ hmem)) htail
      rw [hhead, hrest.1]
      exact ⟨rfl, hrest.2⟩

/-- Two services with one owner text are one service. -/
theorem toServiceOwner_inj {workspaceId workspaceId' scriptName scriptName' : String}
    (h : NulFree workspaceId) (h' : NulFree workspaceId')
    (heq : toServiceOwner workspaceId scriptName = toServiceOwner workspaceId' scriptName') :
    workspaceId = workspaceId' ∧ scriptName = scriptName' := by
  have hlists : workspaceId.toList ++ '\x00' :: scriptName.toList =
      workspaceId'.toList ++ '\x00' :: scriptName'.toList := by
    have hchars := congrArg String.toList heq
    unfold toServiceOwner at hchars
    simp only [String.toList_append, List.append_assoc] at hchars
    exact hchars
  obtain ⟨hid, hname⟩ := eq_of_append_separator h h' hlists
  exact ⟨String.toList_injective hid, String.toList_injective hname⟩

namespace PortRegistry

variable {s : PortRegistry} {w n w' n' : String} {p p' : ℤ} {α : Type*}

/-! ## The two maps -/

theorem owners_reserve : (s.reserveDynamicPort w n p).owners p' =
    if p' = p then some (toServiceOwner w n) else s.owners p' := by
  show Function.update s.owners p _ p' = _
  rw [update_apply]

theorem dynamicPort_reserve : (s.reserveDynamicPort w n p).dynamicPort w' n' =
    if w' = w ∧ n' = n then some p else s.dynamicPort w' n' := by
  show (Function.update s.dynamicPorts w _ w').bind _ = _
  by_cases hw : w' = w
  · rw [hw, update_self, Option.bind_some, OrderedMap.get_set]
    by_cases hn : n' = n
    · rw [if_pos hn, if_pos ⟨rfl, hn⟩]
    · rw [if_neg hn, if_neg fun h => hn h.2]
      unfold dynamicPort
      cases s.dynamicPorts w with
      | none => rfl
      | some workspacePorts => rfl
  · rw [update_of_ne hw, if_neg fun h => hw h.1]
    rfl

theorem owners_releaseDynamicPort : (s.releaseDynamicPort w n p).owners p' =
    if p' = p ∧ s.owners p = some (toServiceOwner w n) then none else s.owners p' := by
  have howners : (s.releaseDynamicPort w n p).owners =
      if s.owners p = some (toServiceOwner w n) then Function.update s.owners p none
      else s.owners := by
    unfold releaseDynamicPort
    cases s.dynamicPorts w with
    | none => rfl
    | some workspacePorts =>
      show (if _ then _ else _ : PortRegistry).owners = _
      by_cases hget : workspacePorts.get n = some p
      · rw [if_pos hget]
      · rw [if_neg hget]
  rw [howners]
  by_cases howner : s.owners p = some (toServiceOwner w n)
  · rw [if_pos howner, update_apply]
    by_cases hp : p' = p
    · rw [if_pos hp, if_pos ⟨hp, howner⟩]
    · rw [if_neg hp, if_neg fun h => hp h.1]
  · rw [if_neg howner, if_neg fun h => howner h.2]

theorem get_withoutService (workspacePorts : Plan) :
    (withoutService workspacePorts n).bind (·.get n') =
      if n' = n then none else workspacePorts.get n' := by
  unfold withoutService
  by_cases hsize : (workspacePorts.delete n).size = 0
  · rw [if_pos hsize]
    have hnone : (workspacePorts.delete n).get n' = none := by
      rw [OrderedMap.get_eq_none_iff, OrderedMap.keys_eq_nil_iff.mpr hsize]
      exact List.not_mem_nil
    rw [OrderedMap.get_delete] at hnone
    rw [hnone]
    rfl
  · rw [if_neg hsize, Option.bind_some, OrderedMap.get_delete]

theorem dynamicPorts_releaseDynamicPort : (s.releaseDynamicPort w n p).dynamicPorts =
    if s.dynamicPort w n = some p then
      Function.update s.dynamicPorts w ((s.dynamicPorts w).bind (withoutService · n))
    else s.dynamicPorts := by
  unfold releaseDynamicPort dynamicPort
  cases hports : s.dynamicPorts w with
  | none => rfl
  | some workspacePorts =>
    show (if _ then _ else _ : PortRegistry).dynamicPorts = if workspacePorts.get n = some p then _ else _
    by_cases hget : workspacePorts.get n = some p
    · rw [if_pos hget, if_pos hget]
      rfl
    · rw [if_neg hget, if_neg hget]

theorem dynamicPort_releaseDynamicPort : (s.releaseDynamicPort w n p).dynamicPort w' n' =
    if w' = w ∧ n' = n ∧ s.dynamicPort w n = some p then none else s.dynamicPort w' n' := by
  show ((s.releaseDynamicPort w n p).dynamicPorts w').bind _ = _
  rw [dynamicPorts_releaseDynamicPort]
  by_cases hport : s.dynamicPort w n = some p
  · rw [if_pos hport]
    by_cases hw : w' = w
    · obtain ⟨workspacePorts, hports, -⟩ := Option.bind_eq_some_iff.mp hport
      rw [hw, update_self, hports, Option.bind_some, get_withoutService]
      by_cases hn : n' = n
      · rw [if_pos hn, if_pos ⟨rfl, hn, hport⟩]
      · rw [if_neg hn, if_neg fun h => hn h.2.1]
        unfold dynamicPort
        rw [hports, Option.bind_some]
    · rw [update_of_ne hw, if_neg fun h => hw h.1]
      rfl
  · rw [if_neg hport, if_neg fun h => hport h.2.2]
    rfl

/-- What releasing the ports of a workspace one by one leaves of the owners. -/
theorem owners_foldl_release (entries : List (String × ℤ)) : ∀ s : PortRegistry,
    (entries.foldl (fun s entry => s.releaseDynamicPort w entry.1 entry.2) s).owners p =
      if ∃ entry ∈ entries, entry.2 = p ∧ s.owners p = some (toServiceOwner w entry.1) then none
      else s.owners p := by
  induction entries with
  | nil => simp
  | cons entry entries ih =>
    intro s
    rw [List.foldl_cons, ih, owners_releaseDynamicPort]
    by_cases hfirst : p = entry.2 ∧ s.owners entry.2 = some (toServiceOwner w entry.1)
    · rw [if_pos hfirst, ite_self, if_pos]
      exact ⟨entry, List.mem_cons_self, hfirst.1.symm, hfirst.1 ▸ hfirst.2⟩
    · rw [if_neg hfirst]
      refine if_congr ?_ rfl rfl
      constructor
      · rintro ⟨other, hmem, hother⟩
        exact ⟨other, List.mem_cons_of_mem _ hmem, hother⟩
      · rintro ⟨other, hmem, hport, howner⟩
        rcases List.mem_cons.mp hmem with rfl | hrest
        · exact absurd ⟨hport.symm, hport ▸ howner⟩ hfirst
        · exact ⟨other, hrest, hport, howner⟩

theorem dynamicPort_foldl_release (hw : w' ≠ w) (entries : List (String × ℤ)) :
    ∀ s : PortRegistry,
      (entries.foldl (fun s entry => s.releaseDynamicPort w entry.1 entry.2) s).dynamicPorts w' =
        s.dynamicPorts w' := by
  induction entries with
  | nil => exact fun _ => rfl
  | cons entry entries ih =>
    intro s
    rw [List.foldl_cons, ih, dynamicPorts_releaseDynamicPort]
    by_cases hport : s.dynamicPort w entry.1 = some entry.2
    · rw [if_pos hport, update_of_ne hw]
    · rw [if_neg hport]

section

variable (field : PortRegistry → α)

/-- A part of the registry that releasing a port does not touch. -/
theorem foldl_release_frame
    (hfield : ∀ (s : PortRegistry) n p, field (s.releaseDynamicPort w n p) = field s)
    (entries : List (String × ℤ)) (s : PortRegistry) :
    field (entries.foldl (fun s entry => s.releaseDynamicPort w entry.1 entry.2) s) = field s := by
  induction entries generalizing s with
  | nil => rfl
  | cons entry entries ih => rw [List.foldl_cons, ih, hfield]

/-- A part of the registry other than the two maps of ports. -/
theorem releaseDynamicPort_frame (hfield : ∀ (s : PortRegistry) owners dynamicPorts,
      field { s with owners, dynamicPorts } = field s) :
    field (s.releaseDynamicPort w n p) = field s := by
  unfold releaseDynamicPort
  cases s.dynamicPorts w with
  | none => exact hfield s _ s.dynamicPorts
  | some workspacePorts =>
    show field (if _ then _ else _) = _
    by_cases hget : workspacePorts.get n = some p
    · rw [if_pos hget]
      exact hfield s _ _
    · rw [if_neg hget]
      exact hfield s _ s.dynamicPorts

/-! ## Releasing a workspace -/

theorem owners_releaseWorkspace {o : String} :
    (s.releaseWorkspaceServicePortPlan w).owners p = some o ↔
      s.owners p = some o ∧ ∀ n, s.dynamicPort w n = some p → o ≠ toServiceOwner w n := by
  unfold releaseWorkspaceServicePortPlan
  cases hports : s.dynamicPorts w with
  | none =>
    dsimp only
    rw [hports]
    refine (and_iff_left ?_).symm
    intro n hport
    unfold dynamicPort at hport
    rw [hports] at hport
    contradiction
  | some dynamicPorts =>
    have hport : ∀ n, s.dynamicPort w n = dynamicPorts.get n := by
      intro n
      unfold dynamicPort
      rw [hports]
      rfl
    dsimp only
    rw [hports]
    show (dynamicPorts.entries.foldl _ _ : PortRegistry).owners p = some o ↔ _
    rw [owners_foldl_release]
    by_cases hgone : ∃ entry ∈ dynamicPorts.entries,
        entry.2 = p ∧ s.owners p = some (toServiceOwner w entry.1)
    · rw [if_pos hgone]
      obtain ⟨⟨n, port⟩, hmem, rfl, howner⟩ := hgone
      refine iff_of_false (fun h => nomatch h) ?_
      rintro ⟨ho, hkept⟩
      rw [howner] at ho
      exact hkept n ((hport n).trans (OrderedMap.get_eq_some_iff.mpr hmem)) (Option.some.inj ho).symm
    · rw [if_neg hgone]
      refine (and_iff_left_of_imp ?_).symm
      intro ho n hget heq
      rw [hport] at hget
      exact hgone ⟨(n, p), OrderedMap.get_eq_some_iff.mp hget, rfl, heq ▸ ho⟩

theorem dynamicPort_releaseWorkspace :
    (s.releaseWorkspaceServicePortPlan w).dynamicPort w' n' =
      if w' = w then none else s.dynamicPort w' n' := by
  unfold releaseWorkspaceServicePortPlan
  cases hports : s.dynamicPorts w with
  | none =>
    dsimp only
    rw [hports]
    by_cases hw : w' = w
    · rw [if_pos hw, hw]
      show (s.dynamicPorts w).bind _ = none
      rw [hports]
      rfl
    · rw [if_neg hw]
      rfl
  | some dynamicPorts =>
    dsimp only
    rw [hports]
    show (Function.update (PortRegistry.dynamicPorts _) w none w').bind _ = _
    by_cases hw : w' = w
    · rw [if_pos hw, hw, update_self]
      rfl
    · rw [if_neg hw, update_of_ne hw, dynamicPort_foldl_release hw]
      rfl

/-- A part of the registry other than the plans, the tokens and the two maps of ports. -/
theorem releaseWorkspace_frame (hfield : ∀ (s : PortRegistry) plans tokens owners dynamicPorts,
      field { s with plans, tokens, owners, dynamicPorts } = field s) :
    field (s.releaseWorkspaceServicePortPlan w) = field s := by
  have hrelease : ∀ (s : PortRegistry) n p, field (s.releaseDynamicPort w n p) = field s :=
    fun _ _ _ => releaseDynamicPort_frame field fun s owners dynamicPorts =>
      hfield s s.plans s.tokens owners dynamicPorts
  unfold releaseWorkspaceServicePortPlan
  cases hports : s.dynamicPorts w with
  | none =>
    dsimp only
    rw [hports]
    exact hfield s _ _ s.owners s.dynamicPorts
  | some dynamicPorts =>
    dsimp only
    rw [hports]
    dsimp only
    refine (hfield _ _ _ _ _).trans ?_
    exact (foldl_release_frame field hrelease _ _).trans (hfield s _ _ s.owners s.dynamicPorts)

end

@[simp] theorem jobs_releaseWorkspace : (s.releaseWorkspaceServicePortPlan w).jobs = s.jobs :=
  releaseWorkspace_frame jobs fun _ _ _ _ _ => rfl

@[simp] theorem heap_releaseWorkspace : (s.releaseWorkspaceServicePortPlan w).heap = s.heap :=
  releaseWorkspace_frame heap fun _ _ _ _ _ => rfl

@[simp] theorem nextId_releaseWorkspace : (s.releaseWorkspaceServicePortPlan w).nextId = s.nextId :=
  releaseWorkspace_frame nextId fun _ _ _ _ _ => rfl

theorem plans_releaseWorkspace :
    (s.releaseWorkspaceServicePortPlan w).plans = Function.update s.plans w none := by
  unfold releaseWorkspaceServicePortPlan
  cases hports : s.dynamicPorts w with
  | none =>
    dsimp only
    rw [hports]
  | some dynamicPorts =>
    dsimp only
    rw [hports]
    exact foldl_release_frame plans (fun _ _ _ => releaseDynamicPort_frame plans fun _ _ _ => rfl) _ _

theorem tokens_releaseWorkspace :
    (s.releaseWorkspaceServicePortPlan w).tokens =
      Function.update s.tokens w ((s.tokens w).map fun _ => true) := by
  unfold releaseWorkspaceServicePortPlan
  cases hports : s.dynamicPorts w with
  | none =>
    dsimp only
    rw [hports]
  | some dynamicPorts =>
    dsimp only
    rw [hports]
    exact foldl_release_frame tokens (fun _ _ _ => releaseDynamicPort_frame tokens fun _ _ _ => rfl)
      _ _

@[simp] theorem jobs_releaseDynamicPort : (s.releaseDynamicPort w n p).jobs = s.jobs :=
  releaseDynamicPort_frame jobs fun _ _ _ => rfl

@[simp] theorem heap_releaseDynamicPort : (s.releaseDynamicPort w n p).heap = s.heap :=
  releaseDynamicPort_frame heap fun _ _ _ => rfl

end PortRegistry

end Orqara.Services
