import Orqara.Agent.StreamCoalescer

/-!
# What coalescing does to entries

A batch of entries in the order in which they were handled, with every tool call update
put in the place of the call's first one, and neighbouring chunks joined.
-/

namespace Orqara.Agent

open Orqara.Timeline PendingAgentStreamEntry List Option

/-! ## Text -/

/-- The key under which text is kept together. -/
structure TextKey where
  stream : TextStream
  provider : String
  turnId : Option String
  deriving DecidableEq

def PendingAgentStreamEntry.textIn (key : TextKey) : PendingAgentStreamEntry → String
  | .text stream chunk provider turnId =>
    if key = { stream, provider, turnId } then chunk else ""
  | .toolCall .. => ""

/-- The chunks of a key, concatenated. -/
def textOf (key : TextKey) (entries : List PendingAgentStreamEntry) : String :=
  entries.foldr (fun entry text => entry.textIn key ++ text) ""

@[simp] theorem textOf_nil (key : TextKey) : textOf key [] = "" := rfl

@[simp] theorem textOf_cons (key : TextKey) (entry : PendingAgentStreamEntry)
    (entries : List PendingAgentStreamEntry) :
    textOf key (entry :: entries) = entry.textIn key ++ textOf key entries := rfl

@[simp] theorem textOf_append (key : TextKey) (xs ys : List PendingAgentStreamEntry) :
    textOf key (xs ++ ys) = textOf key xs ++ textOf key ys := by
  induction xs with
  | nil => simp
  | cons x xs ih => rw [cons_append, textOf_cons, textOf_cons, ih, String.append_assoc]

/-! ## Tool calls -/

/-- The last update of a tool call. -/
def latestCall (callId : String) (entries : List PendingAgentStreamEntry) :
    Option PendingAgentStreamEntry :=
  (entries.filter fun entry => entry.callId? = some callId).getLast?

theorem latestCall_append (callId : String) (xs ys : List PendingAgentStreamEntry) :
    latestCall callId (xs ++ ys) = (latestCall callId ys).or (latestCall callId xs) := by
  rw [latestCall, filter_append, getLast?_append]
  rfl

/-- An update of the tool call that is there already. -/
def PendingAgentStreamEntry.updates (entry previous : PendingAgentStreamEntry) : Bool :=
  entry.callId?.isSome && entry.callId? == previous.callId?

/-- An entry added to others: in the place of the tool call that it updates, or at the end. -/
def place : List PendingAgentStreamEntry → PendingAgentStreamEntry → List PendingAgentStreamEntry
  | [], entry => [entry]
  | previous :: entries, entry =>
    if entry.updates previous then entry :: entries else previous :: place entries entry

def placed (entries : List PendingAgentStreamEntry) : List PendingAgentStreamEntry :=
  entries.foldl place []

variable {entry : PendingAgentStreamEntry} {callId : String} {entries : List PendingAgentStreamEntry}
  {x : PendingAgentStreamEntry}

theorem updates_iff {previous : PendingAgentStreamEntry} :
    entry.updates previous = true ↔
      ∃ callId, entry.callId? = some callId ∧ previous.callId? = some callId := by
  unfold updates
  cases hentry : entry.callId? with
  | none => simp
  | some callId =>
    simp only [isSome_some, Bool.true_and, beq_iff_eq, Option.some.injEq, exists_eq_left']
    exact eq_comm

theorem updates_of_callId (hentry : entry.callId? = some callId) :
    entry.updates x = true ↔ x.callId? = some callId := by
  rw [updates_iff, hentry]
  simp

theorem textIn_of_callId (h : entry.callId? = some callId) (key : TextKey) : entry.textIn key = "" := by
  cases entry with
  | text stream chunk provider turnId => simp [callId?] at h
  | toolCall item provider turnId => rfl

section

variable (key : TextKey)

/-- Text is never replaced. -/
theorem textOf_place (entries : List PendingAgentStreamEntry)
    (entry : PendingAgentStreamEntry) :
    textOf key (place entries entry) = textOf key entries ++ entry.textIn key := by
  induction entries with
  | nil => simp [place]
  | cons previous entries ih =>
    rw [place]
    by_cases hupdates : entry.updates previous = true
    · obtain ⟨callId, hentry, hprevious⟩ := updates_iff.mp hupdates
      rw [if_pos hupdates, textOf_cons, textOf_cons, textIn_of_callId hentry,
        textIn_of_callId hprevious]
      simp
    · rw [if_neg hupdates, textOf_cons, textOf_cons, ih, String.append_assoc]

theorem textOf_placed (entries : List PendingAgentStreamEntry) :
    textOf key (placed entries) = textOf key entries := by
  have hfold : ∀ start : List PendingAgentStreamEntry,
      textOf key (entries.foldl place start) = textOf key start ++ textOf key entries := by
    induction entries with
    | nil => simp
    | cons entry entries ih =>
      intro start
      rw [foldl_cons, ih, textOf_place, textOf_cons, String.append_assoc]
  rw [placed, hfold, textOf_nil, String.empty_append]

/-- No two entries are of one tool call. -/
def UniqueCalls (entries : List PendingAgentStreamEntry) : Prop :=
  entries.Pairwise fun a b => ∀ callId, a.callId? = some callId → b.callId? ≠ some callId

theorem callId_of_mem_place (h : x ∈ place entries entry) :
    x = entry ∨ x ∈ entries := by
  induction entries with
  | nil => simpa [place] using h
  | cons previous entries ih =>
    rw [place] at h
    split at h
    · rcases mem_cons.mp h with heq | hrest
      · exact .inl heq
      · exact .inr (mem_cons_of_mem _ hrest)
    · rcases mem_cons.mp h with heq | hrest
      · exact .inr (by simp [heq])
      · rcases ih hrest with heq | hmem
        · exact .inl heq
        · exact .inr (mem_cons_of_mem _ hmem)

theorem UniqueCalls.place (h : UniqueCalls entries) (entry : PendingAgentStreamEntry) :
    UniqueCalls (place entries entry) := by
  induction entries with
  | nil => simp [Agent.place, UniqueCalls]
  | cons previous entries ih =>
    obtain ⟨hhead, htail⟩ := pairwise_cons.mp h
    rw [Agent.place]
    by_cases hupdates : entry.updates previous = true
    · rw [if_pos hupdates]
      obtain ⟨callId, hentry, hprevious⟩ := updates_iff.mp hupdates
      apply pairwise_cons.mpr
      refine ⟨?_, htail⟩
      intro x hx id hid
      have hsame : id = callId := by
        rw [hentry] at hid
        exact (some.inj hid).symm
      rw [hsame]
      exact hhead x hx callId hprevious
    · rw [if_neg hupdates]
      apply pairwise_cons.mpr
      refine ⟨?_, ih htail⟩
      intro x hx id hid hxid
      rcases callId_of_mem_place hx with rfl | hmem
      · exact hupdates (updates_iff.mpr ⟨id, hxid, hid⟩)
      · exact hhead x hmem id hid hxid

theorem uniqueCalls_placed (entries : List PendingAgentStreamEntry) :
    UniqueCalls (placed entries) := by
  have hfold : ∀ start : List PendingAgentStreamEntry, UniqueCalls start →
      UniqueCalls (entries.foldl place start) := by
    induction entries with
    | nil => exact fun _ h => h
    | cons entry entries ih => exact fun start h => ih _ (h.place entry)
  exact hfold [] List.Pairwise.nil

theorem latestCall_singleton (callId : String) (entry : PendingAgentStreamEntry) :
    latestCall callId [entry] = if entry.callId? = some callId then some entry else none := by
  unfold latestCall
  by_cases h : entry.callId? = some callId
  · simp [h]
  · simp [h]

theorem latestCall_cons (callId : String) (entry : PendingAgentStreamEntry)
    (entries : List PendingAgentStreamEntry) :
    latestCall callId (entry :: entries) =
      (latestCall callId entries).or (latestCall callId [entry]) :=
  latestCall_append callId [entry] entries

theorem latestCall_eq_none (h : ∀ x ∈ entries, x.callId? ≠ some callId) :
    latestCall callId entries = none := by
  unfold latestCall
  rw [getLast?_eq_none_iff, filter_eq_nil_iff]
  intro x hx
  simpa using h x hx

/-- An update becomes the latest of its call, and touches no other call. -/
theorem latestCall_place (h : UniqueCalls entries) (callId : String) (entry : PendingAgentStreamEntry) :
    latestCall callId (place entries entry) =
      (latestCall callId [entry]).or (latestCall callId entries) := by
  induction entries with
  | nil => simp [place, latestCall_eq_none]
  | cons previous entries ih =>
    obtain ⟨hhead, htail⟩ := pairwise_cons.mp h
    rw [place]
    by_cases hupdates : entry.updates previous = true
    · obtain ⟨own, hentry, hprevious⟩ := updates_iff.mp hupdates
      rw [if_pos hupdates, latestCall_cons, latestCall_cons callId previous,
        latestCall_singleton, latestCall_singleton, hentry, hprevious]
      by_cases hown : own = callId
      · -- no entry after the replaced one is of this call
        rw [hown] at hprevious
        have hnone := latestCall_eq_none fun x hx => hhead x hx callId hprevious
        simp [hown, hnone]
      · simp [hown]
    · rw [if_neg hupdates, latestCall_cons, ih htail, latestCall_cons callId previous entries,
        Option.or_assoc]

theorem latestCall_placed (callId : String) (entries : List PendingAgentStreamEntry) :
    latestCall callId (placed entries) = latestCall callId entries := by
  have hfold : ∀ start : List PendingAgentStreamEntry, UniqueCalls start →
      latestCall callId (entries.foldl place start) =
        (latestCall callId entries).or (latestCall callId start) := by
    induction entries with
    | nil =>
      intro start _
      simp [latestCall_eq_none]
    | cons entry entries ih =>
      intro start h
      rw [foldl_cons, ih _ (h.place entry), latestCall_place h,
        latestCall_cons callId entry entries, Option.or_assoc]
  rw [placed, hfold [] List.Pairwise.nil]
  simp [latestCall_eq_none]

/-! ## The place of a tool call -/

/-- Around the place of a tool call nothing moves to the other side. -/
theorem place_around {front : List PendingAgentStreamEntry} {call : PendingAgentStreamEntry}
    (back : List PendingAgentStreamEntry) (entry : PendingAgentStreamEntry)
    (hcall : call.callId? = some callId) (hfront : ∀ x ∈ front, x.callId? ≠ some callId) :
    ∃ front' back' call', place (front ++ call :: back) entry = front' ++ call' :: back' ∧
      call'.callId? = some callId ∧ (∀ x ∈ front', x.callId? ≠ some callId) ∧
      ∀ key, textOf key front' = textOf key front ∧
        textOf key back' = textOf key back ++ entry.textIn key := by
  induction front with
  | nil =>
    rw [nil_append, place]
    by_cases hupdates : entry.updates call = true
    · obtain ⟨own, hentry, hown⟩ := updates_iff.mp hupdates
      rw [if_pos hupdates]
      refine ⟨[], back, entry, rfl, ?_, by simp, ?_⟩
      · rw [hentry, ← hown, hcall]
      · intro key
        simp [textIn_of_callId hentry]
    · rw [if_neg hupdates]
      exact ⟨[], place back entry, call, rfl, hcall, by simp, fun key => ⟨rfl, textOf_place ..⟩⟩
  | cons previous front ih =>
    have hprevious := hfront previous mem_cons_self
    rw [cons_append, place]
    by_cases hupdates : entry.updates previous = true
    · obtain ⟨own, hentry, hown⟩ := updates_iff.mp hupdates
      rw [if_pos hupdates]
      refine ⟨entry :: front, back, call, rfl, hcall, ?_, ?_⟩
      · intro x hx
        rcases mem_cons.mp hx with rfl | hmem
        · rw [hentry, ← hown]
          exact hprevious
        · exact hfront x (mem_cons_of_mem _ hmem)
      · intro key
        simp [textIn_of_callId hentry, textIn_of_callId hown]
    · rw [if_neg hupdates]
      obtain ⟨front', back', call', hplace, hcall', hfront', htext⟩ :=
        ih fun x hx => hfront x (mem_cons_of_mem _ hx)
      refine ⟨previous :: front', back', call', by rw [hplace]; rfl, hcall', ?_, ?_⟩
      · intro x hx
        rcases mem_cons.mp hx with rfl | hmem
        · exact hprevious
        · exact hfront' x hmem
      · intro key
        obtain ⟨hfrontText, hbackText⟩ := htext key
        exact ⟨by rw [textOf_cons, textOf_cons, hfrontText], hbackText⟩

theorem mem_of_mem_placed (h : x ∈ placed entries) : x ∈ entries := by
  have hfold : ∀ start : List PendingAgentStreamEntry, x ∈ entries.foldl place start →
      x ∈ start ∨ x ∈ entries := by
    clear h
    induction entries with
    | nil => exact fun _ h => .inl h
    | cons entry entries ih =>
      intro start h
      rcases ih _ h with hstart | hrest
      · rcases callId_of_mem_place hstart with rfl | hmem
        · exact .inr mem_cons_self
        · exact .inl hmem
      · exact .inr (mem_cons_of_mem _ hrest)
  rcases hfold [] h with hnil | hmem
  · cases hnil
  · exact hmem

theorem place_end (h : ∀ x ∈ entries, ¬ entry.updates x = true) :
    place entries entry = entries ++ [entry] := by
  induction entries with
  | nil => rfl
  | cons previous entries ih =>
    rw [place, if_neg (h previous mem_cons_self),
      ih fun x hx => h x (mem_cons_of_mem _ hx)]
    rfl

theorem foldl_place_around (more : List PendingAgentStreamEntry) :
    ∀ {front back : List PendingAgentStreamEntry} {call : PendingAgentStreamEntry},
      call.callId? = some callId → (∀ x ∈ front, x.callId? ≠ some callId) →
      ∃ front' back' call', more.foldl place (front ++ call :: back) = front' ++ call' :: back' ∧
        call'.callId? = some callId ∧
        ∀ key, textOf key front' = textOf key front ∧
          textOf key back' = textOf key back ++ textOf key more := by
  induction more with
  | nil =>
    intro front back call hcall _
    exact ⟨front, back, call, rfl, hcall, fun key => ⟨rfl, by simp⟩⟩
  | cons entry more ih =>
    intro front back call hcall hfront
    obtain ⟨front₁, back₁, call₁, hplace, hcall₁, hfront₁, htext₁⟩ :=
      place_around back entry hcall hfront
    obtain ⟨front₂, back₂, call₂, hfold, hcall₂, htext₂⟩ := ih hcall₁ hfront₁
    refine ⟨front₂, back₂, call₂, ?_, hcall₂, ?_⟩
    · rw [foldl_cons, hplace, hfold]
    · intro key
      obtain ⟨hfrontText, hbackText⟩ := htext₁ key
      obtain ⟨hfrontText', hbackText'⟩ := htext₂ key
      refine ⟨hfrontText'.trans hfrontText, ?_⟩
      rw [hbackText', hbackText, textOf_cons, String.append_assoc]

/-- In a batch a tool call stands where its first update was handled. -/
theorem placed_around {before : List PendingAgentStreamEntry} {call : PendingAgentStreamEntry}
    (after : List PendingAgentStreamEntry) (hcall : call.callId? = some callId)
    (hbefore : ∀ x ∈ before, x.callId? ≠ some callId) :
    ∃ front back call', placed (before ++ call :: after) = front ++ call' :: back ∧
      call'.callId? = some callId ∧
      ∀ key, textOf key front = textOf key before ∧ textOf key back = textOf key after := by
  have hplaced : ∀ x ∈ placed before, x.callId? ≠ some callId :=
    fun x hx => hbefore x (mem_of_mem_placed hx)
  have hsplit : placed (before ++ call :: after) =
      after.foldl place (placed before ++ call :: []) := by
    rw [placed, foldl_append, foldl_cons]
    congr 1
    exact place_end fun x hx hupdates => hplaced x hx ((updates_of_callId hcall).mp hupdates)
  obtain ⟨front, back, call', hfold, hcall', htext⟩ := foldl_place_around after hcall hplaced
  refine ⟨front, back, call', hsplit.trans hfold, hcall', ?_⟩
  intro key
  obtain ⟨hfront, hback⟩ := htext key
  exact ⟨hfront.trans (textOf_placed key before), by rw [hback, textOf_nil, String.empty_append]⟩

/-! ## Joining -/

theorem textOf_collapseEntry (collapsed : List PendingAgentStreamEntry)
    (entry : PendingAgentStreamEntry) :
    textOf key (collapseEntry collapsed entry) = textOf key collapsed ++ entry.textIn key := by
  unfold collapseEntry
  split
  · rename_i stream chunk provider turnId stream' chunk' provider' turnId' hlast
    obtain ⟨rest, hrest⟩ := getLast?_eq_some_iff.mp hlast
    split
    · rename_i hsame
      obtain ⟨rfl, rfl, rfl⟩ := hsame
      rw [hrest, dropLast_concat, textOf_append, textOf_append, textOf_cons, textOf_cons]
      by_cases hkey : key = { stream, provider, turnId }
      · simp [textIn, hkey, String.append_assoc]
      · simp [textIn, hkey]
    · simp
  · simp

theorem textOf_collapseEntries (entries : List PendingAgentStreamEntry) :
    textOf key (collapseEntries entries) = textOf key entries := by
  have hfold : ∀ start : List PendingAgentStreamEntry,
      textOf key (entries.foldl collapseEntry start) = textOf key start ++ textOf key entries := by
    induction entries with
    | nil => simp
    | cons entry entries ih =>
      intro start
      rw [foldl_cons, ih, textOf_collapseEntry, textOf_cons, String.append_assoc]
  rw [collapseEntries, hfold, textOf_nil, String.empty_append]

end

theorem latestCall_collapseEntry (callId : String) (collapsed : List PendingAgentStreamEntry)
    (entry : PendingAgentStreamEntry) :
    latestCall callId (collapseEntry collapsed entry) =
      (latestCall callId [entry]).or (latestCall callId collapsed) := by
  unfold collapseEntry
  split
  · rename_i stream chunk provider turnId stream' chunk' provider' turnId' hlast
    obtain ⟨rest, hrest⟩ := getLast?_eq_some_iff.mp hlast
    split
    · rw [hrest, dropLast_concat, latestCall_append, latestCall_append]
      simp [latestCall_singleton, callId?]
    · exact latestCall_append callId collapsed _
  · exact latestCall_append callId collapsed _

theorem latestCall_collapseEntries (callId : String) (entries : List PendingAgentStreamEntry) :
    latestCall callId (collapseEntries entries) = latestCall callId entries := by
  have hfold : ∀ start : List PendingAgentStreamEntry,
      latestCall callId (entries.foldl collapseEntry start) =
        (latestCall callId entries).or (latestCall callId start) := by
    induction entries with
    | nil =>
      intro start
      simp [latestCall_eq_none]
    | cons entry entries ih =>
      intro start
      rw [foldl_cons, ih, latestCall_collapseEntry, latestCall_cons callId entry entries,
        Option.or_assoc]
  rw [collapseEntries, hfold]
  simp [latestCall_eq_none]

theorem collapseEntry_after_call (front back : List PendingAgentStreamEntry)
    {call : PendingAgentStreamEntry} (hcall : call.callId? = some callId)
    (entry : PendingAgentStreamEntry) :
    collapseEntry (front ++ call :: back) entry = front ++ call :: collapseEntry back entry := by
  cases call with
  | text stream chunk provider turnId => simp [callId?] at hcall
  | toolCall item provider turnId =>
    by_cases hback : back = []
    · rw [hback]
      simp [collapseEntry]
    · -- what comes before the call is not looked at
      obtain ⟨rest, last, rfl⟩ := (eq_nil_or_concat' back).resolve_left hback
      have hassoc : front ++ .toolCall item provider turnId :: (rest ++ [last]) =
          (front ++ .toolCall item provider turnId :: rest) ++ [last] := by simp
      rw [hassoc]
      unfold collapseEntry
      rw [getLast?_concat, getLast?_concat, dropLast_concat, dropLast_concat]
      split
      · split
        · simp
        · simp
      · simp

/-- A tool call keeps what is joined apart. -/
theorem collapseEntries_around (front back : List PendingAgentStreamEntry)
    {call : PendingAgentStreamEntry} (hcall : call.callId? = some callId) :
    collapseEntries (front ++ call :: back) =
      collapseEntries front ++ call :: collapseEntries back := by
  have hfold : ∀ collapsed : List PendingAgentStreamEntry,
      back.foldl collapseEntry (collapseEntries front ++ call :: collapsed) =
        collapseEntries front ++ call :: back.foldl collapseEntry collapsed := by
    induction back with
    | nil => exact fun _ => rfl
    | cons entry back ih =>
      intro collapsed
      rw [foldl_cons, collapseEntry_after_call _ _ hcall, ih, foldl_cons]
  have hfirst : collapseEntry (collapseEntries front) call = collapseEntries front ++ [call] := by
    cases call with
    | text stream chunk provider turnId => simp [callId?] at hcall
    | toolCall item provider turnId => simp [collapseEntry]
  rw [collapseEntries, foldl_append, foldl_cons]
  exact (congrArg (back.foldl collapseEntry) hfirst).trans (hfold [])

/-! ## Batches -/

/-- What is flushed for a batch: its texts and the last updates of its tool calls, each
call in the place of its first update. -/
structure Coalesces (batch flushed : List PendingAgentStreamEntry) : Prop where
  text : ∀ key, textOf key flushed = textOf key batch
  call : ∀ callId, latestCall callId flushed = latestCall callId batch
  order : ∀ before call after callId, batch = before ++ call :: after →
    call.callId? = some callId → (∀ x ∈ before, x.callId? ≠ some callId) →
    ∃ front latest back, flushed = front ++ latest :: back ∧
      latestCall callId batch = some latest ∧
      ∀ key, textOf key front = textOf key before ∧ textOf key back = textOf key after

theorem latestCall_of_uniqueCalls {front back : List PendingAgentStreamEntry}
    {call : PendingAgentStreamEntry} (h : UniqueCalls (front ++ call :: back))
    (hcall : call.callId? = some callId) :
    latestCall callId (front ++ call :: back) = some call := by
  have hback : latestCall callId back = none := by
    apply latestCall_eq_none
    intro x hx
    exact (pairwise_cons.mp (pairwise_append.mp h).2.1).1 x hx callId hcall
  rw [latestCall_append, latestCall_cons, hback, latestCall_singleton, if_pos hcall]
  rfl

theorem coalesces_collapseEntries (batch : List PendingAgentStreamEntry) :
    Coalesces batch (collapseEntries (placed batch)) where
  text key := by rw [textOf_collapseEntries, textOf_placed]
  call callId := by rw [latestCall_collapseEntries, latestCall_placed]
  order := by
    intro before call after callId hbatch hcall hbefore
    obtain ⟨front, back, latest, hplaced, hlatest, htext⟩ :=
      placed_around after hcall hbefore
    rw [hbatch]
    refine ⟨collapseEntries front, latest, collapseEntries back, ?_, ?_, ?_⟩
    · rw [hplaced, collapseEntries_around front back hlatest]
    · have hunique := uniqueCalls_placed (before ++ call :: after)
      rw [← latestCall_placed, hplaced]
      rw [hplaced] at hunique
      exact latestCall_of_uniqueCalls hunique hlatest
    · intro key
      rw [textOf_collapseEntries, textOf_collapseEntries]
      exact htext key

/-! ## The buffer in the abstract -/

/-- Entries wait as they are handled, and a flush takes all that wait. -/
inductive Told : (handled flushed waiting : List PendingAgentStreamEntry) → Prop
  | start : Told [] [] []
  | handle {handled flushed waiting} (entry : PendingAgentStreamEntry) :
    Told handled flushed waiting → Told (handled ++ [entry]) flushed (waiting ++ [entry])
  | flush {handled flushed waiting out} :
    Told handled flushed waiting → Coalesces waiting out → Told handled (flushed ++ out) []

namespace Told

variable {handled flushed waiting : List PendingAgentStreamEntry}

section

variable (h : Told handled flushed waiting)
include h

theorem text (key : TextKey) :
    textOf key handled = textOf key flushed ++ textOf key waiting := by
  induction h with
  | start => simp
  | handle entry _ ih => rw [textOf_append, ih, textOf_append, String.append_assoc]
  | flush _ hout ih =>
    rw [ih, textOf_append, hout.text, textOf_nil]
    simp

theorem call (callId : String) :
    latestCall callId handled = (latestCall callId waiting).or (latestCall callId flushed) := by
  induction h with
  | start => simp [latestCall_eq_none]
  | handle entry _ ih => rw [latestCall_append, ih, latestCall_append, Option.or_assoc]
  | flush _ hout ih =>
    rw [ih, latestCall_append, hout.call]
    simp [latestCall_eq_none]

/-- The batches, each with what was flushed for it. -/
theorem batches :
    ∃ batches : List (List PendingAgentStreamEntry × List PendingAgentStreamEntry),
      handled = (batches.map Prod.fst).flatten ++ waiting ∧
      flushed = (batches.map Prod.snd).flatten ∧
      ∀ batch ∈ batches, Coalesces batch.1 batch.2 := by
  induction h with
  | start => exact ⟨[], rfl, rfl, by simp⟩
  | handle entry _ ih =>
    obtain ⟨batches, hhandled, hflushed, hbatches⟩ := ih
    exact ⟨batches, by rw [hhandled, append_assoc], hflushed, hbatches⟩
  | @flush handled flushed waiting out _ hout ih =>
    obtain ⟨batches, hhandled, hflushed, hbatches⟩ := ih
    refine ⟨batches ++ [(waiting, out)], ?_, ?_, ?_⟩
    · rw [hhandled]
      simp
    · rw [hflushed]
      simp
    · intro batch hbatch
      rcases mem_append.mp hbatch with hold | hnew
      · exact hbatches batch hold
      · rw [mem_singleton.mp hnew]
        exact hout

end

end Told

end Orqara.Agent
