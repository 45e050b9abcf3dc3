import Orqara.Library.Comparators
import Orqara.Library.Fallible
import Orqara.Library.Walk
import Orqara.Workspaces.WorkspaceStatus

/-!
# Pages of sorted lists

The server lists workspaces and agents in pages. A cursor is a token with the sort values of the last
entry of a page, which are compared with those of the entries there are when the next page is asked for.
-/

namespace Orqara.Pagination

open Workspaces

/-- A number is finite, or none where it is not a number. -/
inductive CursorSortValue
  | null
  | number (value : Option ℤ)
  | string (text : String)
deriving DecidableEq

inductive Direction
  | asc
  | desc
deriving DecidableEq

structure SortSpec where
  key : String
  direction : Direction
deriving DecidableEq

structure SortablePagerConfig (ι : Type) where
  validKeys : List String
  defaultSort : List SortSpec
  label : String
  getId : ι → String
  getSortValue : ι → String → CursorSortValue

structure DecodedCursor where
  sort : List SortSpec
  values : OrderedMap String CursorSortValue
  id : String

/-- What is written into a token. -/
structure CursorPayload where
  sort : List (String × String)
  values : OrderedMap String CursorSortValue
  id : String

/-- JSON has no number for what is not one. -/
def CursorSortValue.throughJson : CursorSortValue → CursorSortValue
  | .number none => .null
  | value => value

/-- The JSON text of a payload in base64url, and its reader, which finds none in other texts. -/
structure TokenCodec where
  Token : Type
  write : CursorPayload → Token
  read : Token → Option CursorPayload
  read_write : ∀ payload, read (write payload) =
    some { payload with values := payload.values.mapValues (·.throughJson) }

/-- What depends on the locale, and how numbers and dates are written. -/
structure Locale where
  localeCompare : String → String → ℤ
  toLocaleLowerCase : String → String
  numberText : Option ℤ → String
  dateParse : String → Option ℤ
  compares : ComparesOn Set.univ localeCompare

/-! ## Comparing -/

/-- `<` is false where a number is not one. -/
def isLess : Option ℤ → Option ℤ → Bool
  | some a, some b => decide (a < b)
  | _, _ => false

/-- `===` -/
def strictlyEqual : CursorSortValue → CursorSortValue → Bool
  | .number none, _ => false
  | left, right => decide (left = right)

def valueText (locale : Locale) : CursorSortValue → String
  | .null => "null"
  | .number value => locale.numberText value
  | .string text => text

def compareValues (locale : Locale) (left right : CursorSortValue) : ℤ :=
  if strictlyEqual left right then 0
  else match left, right with
    | .null, _ => -1
    | _, .null => 1
    | .number a, .number b => if isLess a b then -1 else 1
    | left, right => locale.localeCompare (valueText locale left) (valueText locale right)

/-- The first key whose values differ decides, and the ids where none does. -/
def compareBy (locale : Locale) (leftValue rightValue : String → CursorSortValue) (ids : ℤ) :
    List SortSpec → ℤ
  | [] => ids
  | spec :: rest =>
    let base := compareValues locale (leftValue spec.key) (rightValue spec.key)
    if base = 0 then compareBy locale leftValue rightValue ids rest
    else match spec.direction with
      | .asc => base
      | .desc => -base

namespace SortablePagerConfig

variable {ι ε : Type} (pager : SortablePagerConfig ι) (locale : Locale) (codec : TokenCodec)

def normalizeSort (sort : Option (List SortSpec)) : List SortSpec :=
  let deduped := (sort.getD []).foldl
    (fun deduped entry => if deduped.any (·.key = entry.key) then deduped else deduped ++ [entry]) []
  if deduped = [] then pager.defaultSort else deduped

def compare (left right : ι) (sort : List SortSpec) : ℤ :=
  compareBy locale (pager.getSortValue left) (pager.getSortValue right)
    (locale.localeCompare (pager.getId left) (pager.getId right)) sort

def compareWithCursor (item : ι) (cursor : DecodedCursor) (sort : List SortSpec) : ℤ :=
  compareBy locale (pager.getSortValue item) (fun key => (cursor.values.get key).getD .null)
    (locale.localeCompare (pager.getId item) cursor.id) sort

/-! ## Cursors -/

def Direction.text : Direction → String
  | .asc => "asc"
  | .desc => "desc"

def encodeCursor (entry : ι) (sort : List SortSpec) : codec.Token :=
  codec.write
    { sort := sort.map fun spec => (spec.key, Direction.text spec.direction)
      values := sort.foldl (fun values spec => values.set spec.key (pager.getSortValue entry spec.key)) ∅
      id := pager.getId entry }

def parseCursorSort : List (String × String) → Except String (List SortSpec)
  | [] => .ok []
  | (key, direction) :: raw =>
    if key ∈ pager.validKeys ∧ (direction = "asc" ∨ direction = "desc") then
      (parseCursorSort raw).map (⟨key, if direction = "asc" then .asc else .desc⟩ :: ·)
    else .error ("Invalid " ++ pager.label ++ " cursor")

def decodeCursor (token : codec.Token) (sort : List SortSpec) : Except String DecodedCursor :=
  match codec.read token with
  | none => .error ("Invalid " ++ pager.label ++ " cursor")
  | some payload => do
    let cursorSort ← pager.parseCursorSort payload.sort
    if cursorSort = sort then .ok ⟨cursorSort, payload.values, payload.id⟩
    else .error (pager.label ++ " cursor does not match current sort")

/-! ## Pages -/

structure Page (Token ε : Type) where
  entries : List ε
  nextCursor : Option Token
  prevCursor : Option Token
  hasMore : Bool

/-- A page of what `collect` makes of the items behind the cursor; `itemOf` is the item of an entry. -/
def fetchPage (items : List ι) (collect : List ι → List ε) (itemOf : ε → ι) (sort : List SortSpec)
    (limit : ℕ) (cursorToken : Option codec.Token) : Except String (Page codec.Token ε) := do
  let sorted := items.mergeSort fun left right => decide (pager.compare locale left right sort ≤ 0)
  let candidates ← match cursorToken with
    | none => .ok sorted
    | some token => (pager.decodeCursor codec token sort).map fun cursor =>
        sorted.filter fun item => decide (pager.compareWithCursor locale item cursor sort > 0)
  let matched := collect candidates
  let paged := matched.take limit
  .ok
    { entries := paged
      nextCursor := if limit < matched.length then
          paged.getLast?.map fun entry => pager.encodeCursor codec (itemOf entry) sort
        else none
      prevCursor := cursorToken
      hasMore := decide (limit < matched.length) }

end SortablePagerConfig

/-! ## Workspaces -/

structure WorkspaceDescriptorPayload where
  id : String
  name : String
  projectId : String
  status : StateBucket
  activityAt : Option String

def workspacePager (locale : Locale) : SortablePagerConfig WorkspaceDescriptorPayload where
  validKeys := ["status_priority", "activity_at", "name", "project_id"]
  defaultSort := [⟨"activity_at", .desc⟩]
  label := "fetch_workspaces"
  getId := (·.id)
  getSortValue := fun workspace key =>
    if key = "status_priority" then .number (some workspace.status.priority)
    else if key = "activity_at" then
      match nonEmptyText workspace.activityAt with
      | some text => .number (locale.dateParse text)
      | none => .null
    else if key = "name" then .string (locale.toLocaleLowerCase workspace.name)
    else .string (locale.toLocaleLowerCase workspace.projectId)

def listFetchEntries (locale : Locale) (codec : TokenCodec) (workspaces : List WorkspaceDescriptorPayload)
    (matchesFilter : WorkspaceDescriptorPayload → Bool) (sort : Option (List SortSpec)) (limit : ℕ)
    (cursorToken : Option codec.Token) :
    Except String (SortablePagerConfig.Page codec.Token WorkspaceDescriptorPayload) :=
  let pager := workspacePager locale
  pager.fetchPage locale codec (workspaces.filter matchesFilter) id id (pager.normalizeSort sort) limit
    cursorToken

/-! ## Agents -/

structure ListedAgent extends AgentPayload where
  createdAt : String
  title : Option String

def getAgentStatusPriority (agent : AgentPayload) : ℤ :=
  if 0 < agent.pendingPermissions ∨ agent.attentionReason = some .permission then 0
  else if agent.status = .error ∨ agent.attentionReason = some .error then 1
  else if agent.status = .running then 2
  else if agent.status = .initializing then 3
  else 4

def agentsPager (locale : Locale) : SortablePagerConfig ListedAgent where
  validKeys := ["status_priority", "created_at", "updated_at", "title"]
  defaultSort := [⟨"updated_at", .desc⟩]
  label := "fetch_agents"
  getId := (·.id)
  getSortValue := fun agent key =>
    if key = "status_priority" then .number (some (getAgentStatusPriority agent.toAgentPayload))
    else if key = "created_at" then .number (locale.dateParse agent.createdAt)
    else if key = "updated_at" then .number (locale.dateParse agent.updatedAt)
    else .string ((agent.title.map locale.toLocaleLowerCase).getD "")

section Agents

variable {π : Type}

/-- One match after the other, up to one more than the limit. -/
def pushEntries {ε : Type} (limit : ℕ) (matchedEntries : List ε) : List ε → List ε
  | [] => matchedEntries
  | entry :: entries =>
    if limit < (matchedEntries ++ [entry]).length then matchedEntries ++ [entry]
    else pushEntries limit (matchedEntries ++ [entry]) entries

/-- The entry of an agent that has a placement and matches the filter. -/
def fetchEntry (getPlacement : Option String → Option π) (matchesFilter : ListedAgent → π → Bool)
    (agent : ListedAgent) : Option (ListedAgent × π) :=
  ((getPlacement agent.workspaceId).map fun project => (agent, project)).filter fun entry =>
    matchesFilter entry.1 entry.2

def collectFetchAgentsEntries (getPlacement : Option String → Option π)
    (matchesFilter : ListedAgent → π → Bool) (limit : ℕ) (matchedEntries : List (ListedAgent × π))
    (candidates : List ListedAgent) : List (ListedAgent × π) :=
  if h : candidates ≠ [] ∧ matchedEntries.length ≤ limit then
    collectFetchAgentsEntries getPlacement matchesFilter limit
      (pushEntries limit matchedEntries
        ((candidates.take 25).filterMap (fetchEntry getPlacement matchesFilter)))
      (candidates.drop 25)
  else matchedEntries
termination_by candidates.length
decreasing_by
  have := List.length_pos_iff.mpr h.1
  rw [List.length_drop]
  omega

def listFetchAgentsEntries (locale : Locale) (codec : TokenCodec) (agents : List ListedAgent)
    (getPlacement : Option String → Option π) (matchesFilter : ListedAgent → π → Bool)
    (sort : Option (List SortSpec)) (limit : ℕ) (cursorToken : Option codec.Token) :
    Except String (SortablePagerConfig.Page codec.Token (ListedAgent × π)) :=
  let pager := agentsPager locale
  pager.fetchPage locale codec agents (collectFetchAgentsEntries getPlacement matchesFilter limit [])
    Prod.fst (pager.normalizeSort sort) limit cursorToken

end Agents

end Orqara.Pagination
