import Orqara.Library.KeysetPages
import Orqara.Pagination.SortablePager

/-!
# Paging through changing lists

A cursor compares like the entry it was made of, as long as every date is one. A client that follows
the cursors sees what stays in the lists, and sees nothing twice, whatever comes and goes between its
requests.
-/

namespace Orqara.Pagination

open Walk Workspaces List Option

variable {locale : Locale} {codec : TokenCodec}

/-! ## The order -/

def Numbers : Set CursorSortValue := {value | value = .null ∨ ∃ n, value = .number (some n)}

def Strings : Set CursorSortValue := {value | value = .null ∨ ∃ text, value = .string text}

theorem compares_numbers : ComparesOn Numbers (compareValues locale) where
  swap := by
    rintro a (rfl | ⟨n, rfl⟩) b (rfl | ⟨m, rfl⟩)
    all_goals simp only [compareValues, strictlyEqual, isLess, decide_eq_true_eq]
    all_goals grind
  trans := by
    rintro a (rfl | ⟨n, rfl⟩) b (rfl | ⟨m, rfl⟩) c (rfl | ⟨k, rfl⟩)
    all_goals simp only [compareValues, strictlyEqual, isLess, decide_eq_true_eq]
    all_goals grind

theorem compares_strings : ComparesOn Strings (compareValues locale) where
  swap := by
    rintro a (rfl | ⟨s, rfl⟩) b (rfl | ⟨t, rfl⟩)
    all_goals simp only [compareValues, strictlyEqual, valueText, decide_eq_true_eq]
    all_goals have := locale.compares.swap
    all_goals grind
  trans := by
    rintro a (rfl | ⟨s, rfl⟩) b (rfl | ⟨t, rfl⟩) c (rfl | ⟨u, rfl⟩)
    all_goals simp only [compareValues, strictlyEqual, valueText, decide_eq_true_eq]
    all_goals have := locale.compares.trans
    all_goals grind

namespace SortablePagerConfig

variable {ι ε : Type} {pager : SortablePagerConfig ι} {S : Set ι} {items : List ι} {sort : List SortSpec}

/-- The items are told apart by their ids, and by each key they are numbers or strings, if anything. -/
structure Pageable (pager : SortablePagerConfig ι) (locale : Locale) (S : Set ι) (sort : List SortSpec) :
    Prop where
  keys : ∀ spec ∈ sort, spec.key ∈ pager.validKeys
  values : ∀ key, (∀ item ∈ S, pager.getSortValue item key ∈ Numbers) ∨
    ∀ item ∈ S, pager.getSortValue item key ∈ Strings
  ids : ∀ a ∈ S, ∀ b ∈ S, locale.localeCompare (pager.getId a) (pager.getId b) = 0 → a = b

theorem Pageable.compares (h : pager.Pageable locale S sort) :
    ComparesOn S fun a b => pager.compare locale a b sort := by
  obtain ⟨-, hvalues, -⟩ := h
  induction sort with
  | nil => exact locale.compares.comap pager.getId fun _ _ => Set.mem_univ _
  | cons spec sort ih =>
    have hkey : ComparesOn S fun a b =>
        compareValues locale (pager.getSortValue a spec.key) (pager.getSortValue b spec.key) :=
      (hvalues spec.key).elim
        (fun h => compares_numbers.comap (fun item => pager.getSortValue item spec.key) h)
        fun h => compares_strings.comap (fun item => pager.getSortValue item spec.key) h
    cases hdirection : spec.direction with
    | asc => simpa only [compare, compareBy, hdirection] using hkey.lex ih
    | desc => simpa only [compare, compareBy, hdirection, neg_eq_zero] using hkey.neg.lex ih

theorem compare_eq_zero {a b : ι} (h : pager.compare locale a b sort = 0) :
    locale.localeCompare (pager.getId a) (pager.getId b) = 0 := by
  induction sort with
  | nil => exact h
  | cons spec sort ih =>
    rw [compare, compareBy] at h
    split at h
    · exact ih h
    · split at h
      · contradiction
      · omega

theorem Pageable.sorted (h : pager.Pageable locale S sort) (hitems : ∀ item ∈ items, item ∈ S)
    (hnodup : items.Nodup) :
    (items.mergeSort fun left right => decide (pager.compare locale left right sort ≤ 0)).Pairwise
      fun left right => pager.compare locale left right sort < 0 := by
  apply (h.compares.comap id hitems).pairwise_mergeSort
  apply hnodup.imp_of_mem
  intro a b ha hb hne hzero
  exact hne (h.ids a (hitems a ha) b (hitems b hb) (compare_eq_zero hzero))

/-! ## Cursors -/

theorem parseCursorSort_text (h : ∀ spec ∈ sort, spec.key ∈ pager.validKeys) :
    pager.parseCursorSort (sort.map fun spec => (spec.key, Direction.text spec.direction)) = .ok sort := by
  induction sort with
  | nil => rfl
  | cons spec sort ih =>
    obtain ⟨hkey, hkeys⟩ := forall_mem_cons.mp h
    obtain ⟨key, direction⟩ := spec
    rw [map_cons, parseCursorSort, ih hkeys]
    cases direction with
    | asc => rw [if_pos ⟨hkey, .inl rfl⟩]; rfl
    | desc => rw [if_pos ⟨hkey, .inr rfl⟩]; rfl

theorem get_foldl_values (value : String → CursorSortValue) (values : OrderedMap String CursorSortValue)
    {key : String} (h : values.get key = some (value key) ∨ ∃ spec ∈ sort, spec.key = key) :
    (sort.foldl (fun values spec => values.set spec.key (value spec.key)) values).get key =
      some (value key) := by
  induction sort generalizing values with
  | nil => simpa using h
  | cons spec sort ih =>
    apply ih
    rw [OrderedMap.get_set]
    by_cases hkey : key = spec.key
    · simp [hkey]
    · simp_all [eq_comm]

theorem compareBy_congr {left right right' : String → CursorSortValue} {ids : ℤ}
    (h : ∀ spec ∈ sort, right spec.key = right' spec.key) :
    compareBy locale left right ids sort = compareBy locale left right' ids sort := by
  induction sort with
  | nil => rfl
  | cons spec sort ih =>
    obtain ⟨hkey, hkeys⟩ := forall_mem_cons.mp h
    rw [compareBy, compareBy, hkey, ih hkeys]

variable (pager) in
/-- What is read of the token of an entry. -/
def cursorOf (entry : ι) (sort : List SortSpec) : DecodedCursor where
  sort := sort
  values := (sort.foldl (fun values spec => values.set spec.key (pager.getSortValue entry spec.key))
    (∅ : OrderedMap String CursorSortValue)).mapValues (·.throughJson)
  id := pager.getId entry

theorem decodeCursor_encodeCursor (entry : ι) (hkeys : ∀ spec ∈ sort, spec.key ∈ pager.validKeys) :
    pager.decodeCursor codec (pager.encodeCursor codec entry sort) sort = .ok (pager.cursorOf entry sort) := by
  rw [decodeCursor, encodeCursor, codec.read_write]
  dsimp only
  rw [parseCursorSort_text hkeys]
  show (if sort = sort then _ else _) = _
  exact if_pos rfl

/-- It compares like the entry. -/
theorem compareWithCursor_cursorOf {entry : ι} (hvalues : ∀ key, pager.getSortValue entry key ≠ .number none)
    (item : ι) :
    pager.compareWithCursor locale item (pager.cursorOf entry sort) sort =
      pager.compare locale item entry sort := by
  apply compareBy_congr
  intro spec hspec
  rw [cursorOf, OrderedMap.get_mapValues,
    get_foldl_values (pager.getSortValue entry) ∅ (.inr ⟨spec, hspec, rfl⟩), map_some,
    getD_some]
  have hvalue := hvalues spec.key
  unfold CursorSortValue.throughJson
  split
  · contradiction
  · rfl

theorem normalizeSort_keys {sort : Option (List SortSpec)}
    (hdefault : ∀ spec ∈ pager.defaultSort, spec.key ∈ pager.validKeys)
    (hkeys : ∀ spec ∈ sort.getD [], spec.key ∈ pager.validKeys) :
    ∀ spec ∈ pager.normalizeSort sort, spec.key ∈ pager.validKeys := by
  rw [normalizeSort]
  split
  · exact hdefault
  · apply List.foldlRecOn (motive := fun deduped : List SortSpec =>
      ∀ spec ∈ deduped, spec.key ∈ pager.validKeys)
    · simp
    · intro deduped hdeduped entry hentry
      split
      · exact hdeduped
      · exact forall_mem_append.mpr ⟨hdeduped, by simpa using hkeys entry hentry⟩

/-! ## Answers -/

/-- What the pager lists, before it is cut into pages. -/
def listed (pager : SortablePagerConfig ι) (locale : Locale) (sort : List SortSpec) (f : ι → Option ε)
    (items : List ι) : List ε :=
  (items.mergeSort fun left right => decide (pager.compare locale left right sort ≤ 0)).filterMap f

def less (pager : SortablePagerConfig ι) (locale : Locale) (sort : List SortSpec) (itemOf : ε → ι)
    (left right : ε) : Bool :=
  decide (pager.compare locale (itemOf left) (itemOf right) sort < 0)

theorem listed_perm (f : ι → Option ε) : (pager.listed locale sort f items).Perm (items.filterMap f) :=
  (mergeSort_perm _ _).filterMap f

/-- A page of what is behind the mark that the cursor was made of. -/
theorem fetchPage_marked {collect : List ι → List ε} {itemOf : ε → ι} {f : ι → Option ε} {limit : ℕ}
    {mark : Option ε} (h : pager.Pageable locale S sort) (hitems : ∀ item ∈ items, item ∈ S)
    (hmark : ∀ entry ∈ mark, itemOf entry ∈ S)
    (hitem : ∀ item entry, f item = some entry → itemOf entry = item)
    (hcollect : ∀ rest, (collect rest).take (limit + 1) = (rest.filterMap f).take (limit + 1))
    {matched : List ε}
    (hmatched : matched = behind (pager.less locale sort itemOf) mark (pager.listed locale sort f items)) :
    pager.fetchPage locale codec items collect itemOf sort limit
        (mark.map fun entry => pager.encodeCursor codec (itemOf entry) sort) = .ok
      { entries := matched.take limit
        nextCursor := if limit < matched.length then
            (matched.take limit).getLast?.map fun entry => pager.encodeCursor codec (itemOf entry) sort
          else none
        prevCursor := mark.map fun entry => pager.encodeCursor codec (itemOf entry) sort
        hasMore := decide (limit < matched.length) } := by
  have hcut (rest : List ι) (hrest : rest.filterMap f = matched) :
      (collect rest).take limit = matched.take limit ∧
        (limit < (collect rest).length ↔ limit < matched.length) := by
    have htake := hcollect rest
    rw [hrest] at htake
    constructor
    · simpa only [take_take, min_eq_left (Nat.le_succ limit)] using congrArg (List.take limit) htake
    · have hlength := congrArg List.length htake
      simp only [length_take] at hlength
      omega
  cases mark with
  | none =>
    obtain ⟨htake, hmore⟩ := hcut (items.mergeSort fun left right =>
      decide (pager.compare locale left right sort ≤ 0)) (hmatched.trans (by simp [behind, listed])).symm
    simp only [← htake, ← hmore]
    rfl
  | some last =>
    have hlast := hmark last rfl
    have hvalues : ∀ key, pager.getSortValue (itemOf last) key ≠ .number none := by
      intro key hnan
      rcases h.values key with hall | hall
      · simpa [Numbers, hnan] using hall (itemOf last) hlast
      · simpa [Strings, hnan] using hall (itemOf last) hlast
    obtain ⟨htake, hmore⟩ := hcut ((items.mergeSort fun left right =>
      decide (pager.compare locale left right sort ≤ 0)).filter fun item =>
        decide (pager.compare locale item (itemOf last) sort > 0)) (by
      rw [hmatched, behind, listed, filterMap_filter, filter_filterMap]
      apply filterMap_congr
      intro item hin
      have hswap := h.compares.swap item (hitems item (mem_mergeSort.mp hin)) _ hlast
      cases hf : f item with
      | none => simp
      | some entry => simp [Option.filter, less, hitem item entry hf, hswap])
    simp only [fetchPage, map_some, decodeCursor_encodeCursor _ h.keys, Except.map, bind, Except.bind,
      compareWithCursor_cursorOf hvalues, htake, hmore]

section Walks

variable {Token : Type}

def nextOf : ℕ × Except String (Page Token ε) → Option (ℕ × Option Token)
  | (k, .ok page) => page.nextCursor.map fun cursor => (k + 1, some cursor)
  | (_, .error _) => none

def entriesOf : ℕ × Except String (Page Token ε) → List ε
  | (_, .ok page) => page.entries
  | (_, .error _) => []

/-- The answers to a client that asks for page after page. -/
def fetchAll (fetch : ℕ → Option Token → Except String (Page Token ε)) (fuel : ℕ) :
    List (ℕ × Except String (Page Token ε)) :=
  (Walk.pages (fun request => (request.1, fetch request.1 request.2)) nextOf fuel (0, none)).map Prod.snd

/-- The pages have entries of the list there was at each request, in their order and none twice. When the
last page has come, no entry that was there all the time is missing, and it does come when the list
stays as it is. -/
structure EachOnce (fetched : List (ℕ × Except String (Page Token ε))) (limit fuel : ℕ)
    (lists : ℕ → List ε) (less : ε → ε → Prop) : Prop where
  pages : ∀ answer ∈ fetched, ∃ page, answer.2 = .ok page ∧ page.entries.length ≤ limit ∧
    ∀ entry ∈ page.entries, entry ∈ lists answer.1
  ordered : (fetched.flatMap entriesOf).Pairwise less
  complete : (∃ answer ∈ fetched.getLast?, nextOf answer = none) →
    ∀ entry, (∀ k, entry ∈ lists k) → entry ∈ fetched.flatMap entriesOf
  ends : (∀ k, lists k = lists 0) → (lists 0).length < fuel →
    ∃ answer ∈ fetched.getLast?, nextOf answer = none

end Walks

variable (codec pager) in
/-- The cursor of a request was made of an entry. -/
def Mark (S : Set ι) (itemOf : ε → ι) (sort : List SortSpec) (request : ℕ × Option codec.Token)
    (mark : Option ε) : Prop :=
  request.2 = mark.map (fun entry => pager.encodeCursor codec (itemOf entry) sort) ∧
    ∀ entry ∈ mark, itemOf entry ∈ S

section

variable {lists : ℕ → List ι} {collect : List ι → List ε} {itemOf : ε → ι} {f : ι → Option ε} {limit : ℕ}
  (h : pager.Pageable locale S sort) (hitems : ∀ k, ∀ item ∈ lists k, item ∈ S)
  (hnodup : ∀ k, (lists k).Nodup) (hitem : ∀ item entry, f item = some entry → itemOf entry = item)
  (hcollect : ∀ rest, (collect rest).take (limit + 1) = (rest.filterMap f).take (limit + 1))
  (hlimit : 1 ≤ limit)
include h hitems hnodup hitem hcollect hlimit

variable (codec) in
theorem keyset :
    Keyset (fun request : ℕ × Option codec.Token => (request.1,
        pager.fetchPage locale codec (lists request.1) collect itemOf sort limit request.2))
      nextOf entriesOf {entry | itemOf entry ∈ S} (pager.less locale sort itemOf)
      (fun request => pager.listed locale sort f (lists request.1)) (Mark codec pager S itemOf sort) where
  mem := by
    intro request entry hentry
    obtain ⟨item, hin, hf⟩ := mem_filterMap.mp hentry
    rw [Set.mem_setOf_eq, hitem item entry hf]
    exact hitems _ item (mem_mergeSort.mp hin)
  mark_mem := fun _ _ hmark => hmark.2
  irrefl := by
    intro entry hentry
    have := h.compares.swap _ hentry _ hentry
    simp only [less, decide_eq_false_iff_not]
    omega
  trans := by
    intro a ha b hb c hc
    simp only [less, decide_eq_true_eq]
    exact h.compares.lt_trans ha hb hc
  sorted := by
    intro request
    rw [listed, pairwise_filterMap]
    apply (h.sorted (hitems request.1) (hnodup request.1)).imp
    intro left right hless entry hentry entry' hentry'
    rw [less, hitem left entry hentry, hitem right entry' hentry']
    exact decide_eq_true hless
  step := by
    intro request mark hmark
    obtain ⟨hcursor, hmem⟩ := hmark
    obtain ⟨matched, hmatched⟩ : ∃ matched, matched = behind (pager.less locale sort itemOf) mark
      (pager.listed locale sort f (lists request.1)) := ⟨_, rfl⟩
    rw [hcursor, fetchPage_marked h (hitems request.1) hmem hitem hcollect hmatched, ← hmatched]
    dsimp only [entriesOf, nextOf]
    by_cases hmore : limit < matched.length
    · right
      have hlt : limit - 1 < matched.length := by omega
      have htake : matched.take limit = matched.take (limit - 1) ++ [matched[limit - 1]] := by
        rw [← take_succ_eq_append_getElem hlt, Nat.sub_add_cancel hlimit]
      refine ⟨matched.take (limit - 1), matched[limit - 1], matched.drop (limit - 1 + 1),
        (request.1 + 1, some (pager.encodeCursor codec (itemOf matched[limit - 1]) sort)), ?_, htake, ?_, rfl, ?_⟩
      · rw [← drop_eq_getElem_cons hlt, take_append_drop]
      · rw [if_pos hmore, htake, getLast?_concat]
        rfl
      · intro entry hentry
        have hin : matched[limit - 1] ∈ behind (pager.less locale sort itemOf) mark
            (pager.listed locale sort f (lists request.1)) := hmatched ▸ getElem_mem hlt
        obtain ⟨item, hsorted, hf⟩ := mem_filterMap.mp (mem_filter.mp hin).1
        rw [← some.inj hentry, hitem item _ hf]
        exact hitems _ item (mem_mergeSort.mp hsorted)
    · left
      rw [if_neg hmore]
      exact ⟨take_of_length_le (by omega), rfl⟩

variable (codec) in
theorem eachOnce (fuel : ℕ) :
    EachOnce (fetchAll (fun k => pager.fetchPage locale codec (lists k) collect itemOf sort limit) fuel) limit
      fuel (fun k => (lists k).filterMap f) fun left right =>
        pager.compare locale (itemOf left) (itemOf right) sort < 0 := by
  have hkeyset := keyset codec h hitems hnodup hitem hcollect hlimit
  have hmark : Mark codec pager S itemOf sort (0, none) none := ⟨rfl, nofun⟩
  constructor
  case pages =>
    intro answer hanswer
    obtain ⟨fetched, hfetched, rfl⟩ := List.mem_map.mp hanswer
    obtain ⟨mark, ⟨hcursor, hmem⟩, hpage⟩ := hkeyset.marked fuel hmark fetched hfetched
    rw [hpage, hcursor, fetchPage_marked h (hitems _) hmem hitem hcollect rfl]
    refine ⟨_, rfl, length_take_le _ _, ?_⟩
    intro entry hentry
    exact (listed_perm f).mem_iff.mp (mem_filter.mp (mem_of_mem_take hentry)).1
  case ordered =>
    rw [fetchAll, flatMap_map]
    exact (hkeyset.ordered fuel hmark).1.imp of_decide_eq_true
  case complete =>
    intro hended entry hstays
    obtain ⟨answer, hanswer, hnone⟩ := hended
    rw [fetchAll, getLast?_map] at hanswer
    obtain ⟨fetched, hfetched, rfl⟩ := map_eq_some_iff.mp hanswer
    rw [fetchAll, flatMap_map]
    exact hkeyset.complete fuel hmark (fun request => (listed_perm f).mem_iff.mpr (hstays request.1)) rfl
      ⟨fetched, hfetched, hnone⟩
  case ends =>
    intro hsame hfuel
    have hperm : ∀ k, (pager.listed locale sort f (lists k)).Perm ((lists 0).filterMap f) := fun k =>
      hsame k ▸ listed_perm f
    obtain ⟨fetched, hfetched, hnone⟩ := hkeyset.ends fuel hmark
      (fun request request' => (hperm request.1).trans (hperm request'.1).symm)
      (((length_filter_le _ _).trans_eq (hperm 0).length_eq).trans_lt hfuel)
    refine ⟨fetched.2, ?_, hnone⟩
    rw [fetchAll, getLast?_map]
    exact map_eq_some_iff.mpr ⟨fetched, hfetched, rfl⟩

end

end SortablePagerConfig

open SortablePagerConfig

/-- English, as far as lower-case letters, digits and one date go. -/
def plainLocale : Locale where
  localeCompare := fun a b => if a < b then -1 else if b < a then 1 else 0
  toLocaleLowerCase := String.toLower
  numberText := fun value => (value.map toString).getD "NaN"
  dateParse := fun text => if text = "2024-05-01T10:00:00Z" then some 1714557600000 else none
  compares :=
    { swap := by grind
      trans := by grind }

theorem plainLocale_eq_zero {a b : String} (h : plainLocale.localeCompare a b = 0) : a = b := by
  simp only [plainLocale] at h
  grind

def plainTokens : TokenCodec where
  Token := CursorPayload
  write := fun payload => { payload with values := payload.values.mapValues (·.throughJson) }
  read := some
  read_write := fun _ => rfl

/-! ## Workspaces -/

/-- Every workspace that stays and matches is listed, and none twice. -/
theorem listFetchEntries_eachOnce (workspaces : ℕ → List WorkspaceDescriptorPayload)
    (matchesFilter : WorkspaceDescriptorPayload → Bool) (sort : Option (List SortSpec)) (limit fuel : ℕ)
    (hkeys : ∀ spec ∈ sort.getD [], spec.key ∈ (workspacePager locale).validKeys)
    (hnodup : ∀ k, (workspaces k).Nodup)
    (hids : ∀ i j, ∀ a ∈ workspaces i, ∀ b ∈ workspaces j, locale.localeCompare a.id b.id = 0 → a = b)
    (hdates : ∀ k, ∀ workspace ∈ workspaces k, ∀ text, nonEmptyText workspace.activityAt = some text →
      (locale.dateParse text).isSome)
    (hlimit : 1 ≤ limit) :
    EachOnce (fetchAll (fun k => listFetchEntries locale codec (workspaces k) matchesFilter sort limit) fuel)
      limit fuel (fun k => (workspaces k).filter matchesFilter) fun left right =>
        (workspacePager locale).compare locale left right ((workspacePager locale).normalizeSort sort) < 0 := by
  have hpageable : (workspacePager locale).Pageable locale {workspace | ∃ k, workspace ∈ workspaces k}
      ((workspacePager locale).normalizeSort sort) :=
    { keys := normalizeSort_keys (by simp [workspacePager]) hkeys
      ids := fun a ⟨i, ha⟩ b ⟨j, hb⟩ => hids i j a ha b hb
      values := by
        intro key
        simp only [workspacePager, Numbers, Strings]
        by_cases hstatus : key = "status_priority"
        · simp [hstatus]
        by_cases hactivity : key = "activity_at"
        · left
          intro workspace ⟨k, hworkspace⟩
          have hdate := hdates k workspace hworkspace
          cases htext : nonEmptyText workspace.activityAt with
          | none => simp [hactivity, htext]
          | some text => simpa [hactivity, htext, isSome_iff_exists] using hdate text htext
        · right
          intro workspace _
          by_cases hname : key = "name" <;> simp [hstatus, hactivity, hname] }
  have hfilter : (fun k => (workspaces k).filter matchesFilter) =
      fun k => ((workspaces k).filter matchesFilter).filterMap some := by
    funext k
    rw [filterMap_some]
  rw [hfilter]
  exact eachOnce codec hpageable (fun k _ hworkspace => ⟨k, mem_of_mem_filter hworkspace⟩)
    (fun k => (hnodup k).filter matchesFilter) (fun _ _ => (some.inj ·.symm)) (by simp) hlimit fuel

def twoWorkspaces : List WorkspaceDescriptorPayload :=
  [⟨"wks_1", "Main", "prj_1", .running, some "2024-05-01T10:00:00Z"⟩, ⟨"wks_2", "Docs", "prj_1", .done, none⟩]

/-- The second workspace comes after the first request. -/
theorem listFetchEntries_eachOnce_two :
    EachOnce (fetchAll (fun k => listFetchEntries plainLocale plainTokens (twoWorkspaces.take (k + 1))
        (fun _ => true) none 1) 3)
      1 3 (fun k => (twoWorkspaces.take (k + 1)).filter fun _ => true) fun left right =>
        (workspacePager plainLocale).compare plainLocale left right
          ((workspacePager plainLocale).normalizeSort none) < 0 :=
  listFetchEntries_eachOnce (fun k => twoWorkspaces.take (k + 1)) (fun _ => true) none 1 3 (by simp)
    (fun k => (show twoWorkspaces.Nodup by simp [twoWorkspaces]).sublist (take_sublist _ _))
    (fun _ _ a ha b hb hids => inj_on_of_nodup_map (l := twoWorkspaces) (f := (·.id)) (by decide)
      (mem_of_mem_take ha) (mem_of_mem_take hb) (plainLocale_eq_zero hids))
    (fun k workspace hworkspace => (show ∀ workspace ∈ twoWorkspaces, ∀ text,
      nonEmptyText workspace.activityAt = some text → (plainLocale.dateParse text).isSome by
        simp [twoWorkspaces, plainLocale, nonEmptyText]) workspace (mem_of_mem_take hworkspace))
    (by decide)

/-! ## Agents -/

variable {π : Type} {limit : ℕ}

theorem pushEntries_eq {matchedEntries entries : List ε} (h : matchedEntries.length ≤ limit) :
    pushEntries limit matchedEntries entries = (matchedEntries ++ entries).take (limit + 1) := by
  induction entries generalizing matchedEntries with
  | nil => rw [pushEntries, append_nil, take_of_length_le (by omega)]
  | cons entry entries ih =>
    have hlength : (matchedEntries ++ [entry]).length = matchedEntries.length + 1 := length_append
    rw [pushEntries, append_cons matchedEntries entry entries]
    split
    · rw [take_left' (by omega)]
    · exact ih (by omega)

theorem collectFetchAgentsEntries_eq {getPlacement : Option String → Option π}
    {matchesFilter : ListedAgent → π → Bool} {matchedEntries : List (ListedAgent × π)}
    {candidates : List ListedAgent} (h : matchedEntries.length ≤ limit + 1) :
    collectFetchAgentsEntries getPlacement matchesFilter limit matchedEntries candidates =
      (matchedEntries ++ candidates.filterMap (fetchEntry getPlacement matchesFilter)).take (limit + 1) := by
  induction matchedEntries, candidates using
    collectFetchAgentsEntries.induct getPlacement matchesFilter limit with
  | case1 matchedEntries candidates hgoesOn ih =>
    rw [collectFetchAgentsEntries, dif_pos hgoesOn]
    rw [pushEntries_eq hgoesOn.2] at ih ⊢
    rw [ih (length_take_le _ _)]
    conv_rhs => rw [← take_append_drop 25 candidates, filterMap_append, ← append_assoc,
      take_append]
    rw [take_append, take_take, min_self, length_take]
    congr 2
    omega
  | case2 matchedEntries candidates hstops =>
    rw [collectFetchAgentsEntries, dif_neg hstops]
    by_cases hnil : candidates = []
    · rw [hnil, filterMap_nil, append_nil, take_of_length_le h]
    · rw [take_left' (by simp only [ne_eq, hnil, not_false_iff, true_and] at hstops; omega)]

/-- Every agent that stays, has a placement and matches is listed, and none twice, however the batches fall. -/
theorem listFetchAgentsEntries_eachOnce (agents : ℕ → List ListedAgent)
    (getPlacement : Option String → Option π) (matchesFilter : ListedAgent → π → Bool)
    (sort : Option (List SortSpec)) (limit fuel : ℕ)
    (hkeys : ∀ spec ∈ sort.getD [], spec.key ∈ (agentsPager locale).validKeys)
    (hnodup : ∀ k, (agents k).Nodup)
    (hids : ∀ i j, ∀ a ∈ agents i, ∀ b ∈ agents j, locale.localeCompare a.id b.id = 0 → a = b)
    (hdates : ∀ k, ∀ agent ∈ agents k, (locale.dateParse agent.createdAt).isSome ∧
      (locale.dateParse agent.updatedAt).isSome)
    (hlimit : 1 ≤ limit) :
    EachOnce (fetchAll (fun k =>
        listFetchAgentsEntries locale codec (agents k) getPlacement matchesFilter sort limit) fuel)
      limit fuel (fun k => (agents k).filterMap (fetchEntry getPlacement matchesFilter)) fun left right =>
        (agentsPager locale).compare locale left.1 right.1 ((agentsPager locale).normalizeSort sort) < 0 := by
  have hpageable : (agentsPager locale).Pageable locale {agent | ∃ k, agent ∈ agents k}
      ((agentsPager locale).normalizeSort sort) :=
    { keys := normalizeSort_keys (by simp [agentsPager]) hkeys
      ids := fun a ⟨i, ha⟩ b ⟨j, hb⟩ => hids i j a ha b hb
      values := by
        intro key
        simp only [agentsPager, Numbers, Strings]
        by_cases hstatus : key = "status_priority"
        · simp [hstatus]
        by_cases hcreated : key = "created_at"
        · left
          intro agent ⟨k, hagent⟩
          simpa [hcreated, isSome_iff_exists] using (hdates k agent hagent).1
        by_cases hupdated : key = "updated_at"
        · left
          intro agent ⟨k, hagent⟩
          simpa [hupdated, isSome_iff_exists] using (hdates k agent hagent).2
        · simp [hstatus, hcreated, hupdated] }
  apply eachOnce codec hpageable (fun k _ hagent => ⟨k, hagent⟩) hnodup _ _ hlimit fuel
  · intro agent entry hentry
    obtain ⟨hplaced, -⟩ := filter_eq_some_iff.mp hentry
    obtain ⟨project, -, rfl⟩ := map_eq_some_iff.mp hplaced
    rfl
  · intro rest
    rw [collectFetchAgentsEntries_eq (Nat.zero_le _), nil_append, take_take, min_self]

def twoAgents : List ListedAgent :=
  ["agt_1", "agt_2"].map fun id =>
    { id, provider := "codex", workspaceId := some "wks_1", parentLabel := none, status := .idle
      pendingPermissions := 0, requiresAttention := false, attentionReason := none
      attentionTimestamp := none, updatedAt := "2024-05-01T10:00:00Z", archivedAt := none
      createdAt := "2024-05-01T10:00:00Z", title := none }

theorem listFetchAgentsEntries_eachOnce_two :
    EachOnce (fetchAll (fun _ =>
        listFetchAgentsEntries plainLocale plainTokens twoAgents id (fun _ _ => true) none 1) 3)
      1 3 (fun _ => twoAgents.filterMap (fetchEntry id fun _ _ => true)) fun left right =>
        (agentsPager plainLocale).compare plainLocale left.1 right.1
          ((agentsPager plainLocale).normalizeSort none) < 0 :=
  listFetchAgentsEntries_eachOnce (fun _ => twoAgents) id (fun _ _ => true) none 1 3 (by simp)
    (fun _ => by simp [twoAgents]) (fun _ _ a ha b hb hids =>
      inj_on_of_nodup_map (l := twoAgents) (f := (·.id)) (by decide) ha hb (plainLocale_eq_zero hids))
    (fun _ => by simp [twoAgents, plainLocale]) (by decide)

end Orqara.Pagination
