import Orqara.Library.Base64
import Orqara.Library.JsString
import Orqara.Library.Trimming
import Orqara.Library.UriComponent

/-!
# Host routes

A route names a server and a workspace, and may say what is to be opened there. An id stands in its
segment as it is where the characters allow it, and as Base64 behind a prefix otherwise. Older links
have the Base64 of a path without the prefix.
-/

namespace Orqara.Routes

/-- Strings without lone surrogates. -/
abbrev Text := List Char

def base64WorkspaceIdPrefix : Text := ['b', '6', '4', '_']

/-! ## Segments -/

def stripSearchAndHash (pathname : Text) : Text := pathname.takeWhile fun c => c ≠ '#' && c ≠ '?'

def extractSearch (pathname : Text) : Text :=
  ((pathname.dropWhile (· ≠ '?')).drop 1).takeWhile (· ≠ '#')

def trimNonEmpty (value : Text) : Option Text :=
  if (trimBy isWhiteSpace value).isEmpty then none else some (trimBy isWhiteSpace value)

def encodeSegment (value : Text) : Text := Uri.encodeComponent value

def decodeSegment (value : Text) : Text := (Uri.decodeComponent value).getD value

def toBase64UrlNoPad (input : Text) : Text :=
  let base64 := (Base64.encode (Utf8.encode input)).map fun unit => Char.ofNat unit.toNat
  (base64.map fun c => if c = '+' then '-' else if c = '/' then '_' else c).rdropWhile (· = '=')

/-- `/^[A-Za-z0-9_-]+$/` -/
def isBase64Url (value : Text) : Bool :=
  !value.isEmpty && value.all fun c => c.isAlphanum || c = '_' || c = '-'

def decodeBase64UrlNoPadUtf8 (input : Text) : Option Text :=
  let normalized := trimBy isWhiteSpace input
  if !isBase64Url normalized then none
  else
    let base64 := normalized.map fun c => if c = '-' then '+' else if c = '_' then '/' else c
    let padded := base64 ++ List.replicate ((4 - base64.length % 4) % 4) '='
    some (Utf8.decode (Base64.decode (padded.map fun c => UInt16.ofNat c.toNat)))

/-- Only what is encoded to the input again. -/
def tryDecodeBase64UrlNoPadUtf8 (input : Text) : Option Text :=
  let normalized := trimBy isWhiteSpace input
  ((decodeBase64UrlNoPadUtf8 normalized).filter fun decoded => !decoded.isEmpty).filter fun decoded =>
    toBase64UrlNoPad decoded == normalized

/-- `/^[A-Za-z0-9._~-]+$/` -/
def isUrlSafeWorkspaceId (value : Text) : Bool :=
  !value.isEmpty && value.all fun c => c.isAlphanum || c = '.' || c = '_' || c = '~' || c = '-'

/-- A drive with a colon has a slash or a backslash as well. -/
def isLegacyPathLikeWorkspaceValue (value : Text) : Bool := value.contains '/' || value.contains '\\'

def hasLegacyDecodeNoise (value : Text) : Bool :=
  value.any fun c => c.toNat < 0x20 || c.toNat = 0x7f || c.toNat = 0xfffd

def isCleanLegacyPathDecode (value : Text) : Bool :=
  isLegacyPathLikeWorkspaceValue value && !hasLegacyDecodeNoise value

def encodeWorkspaceIdForPathSegment (workspaceId : Text) : Text :=
  match trimNonEmpty workspaceId with
  | none => []
  | some id => if isUrlSafeWorkspaceId id then id else base64WorkspaceIdPrefix ++ toBase64UrlNoPad id

/-- An empty decoding counts as none. -/
def nonEmpty (value : Option Text) : Option Text := value.filter fun decoded => !decoded.isEmpty

def decodeWorkspaceIdFromPathSegment (workspaceIdSegment : Text) : Option Text :=
  (trimNonEmpty workspaceIdSegment).bind fun segment =>
    (trimNonEmpty (decodeSegment segment)).bind fun decoded =>
      if base64WorkspaceIdPrefix.isPrefixOf decoded then
        let payload := decoded.drop base64WorkspaceIdPrefix.length
        (nonEmpty ((tryDecodeBase64UrlNoPadUtf8 payload).orElse fun _ =>
          decodeBase64UrlNoPadUtf8 payload)).map (trimBy isWhiteSpace)
      else
        match (nonEmpty (tryDecodeBase64UrlNoPadUtf8 decoded)).filter isCleanLegacyPathDecode with
        | some path => some (trimBy isWhiteSpace path)
        | none =>
          match (nonEmpty (decodeBase64UrlNoPadUtf8 decoded)).filter isCleanLegacyPathDecode with
          | some path => some (trimBy isWhiteSpace path)
          | none => some (trimBy isWhiteSpace decoded)

def encodeFilePathForPathSegment (filePath : Text) : Text :=
  match trimNonEmpty filePath with
  | none => []
  | some path => toBase64UrlNoPad path

def decodeFilePathFromPathSegment (filePathSegment : Text) : Option Text :=
  (trimNonEmpty filePathSegment).bind fun segment =>
    (trimNonEmpty (decodeSegment segment)).bind tryDecodeBase64UrlNoPadUtf8

/-! ## What is to be opened -/

inductive OpenIntentKind where
  | agent
  | terminal
  | draft
  | file
  | setup
  deriving DecidableEq, Repr

/-- An intent with its id, or its path. -/
structure WorkspaceOpenIntent where
  kind : OpenIntentKind
  payload : Text
  deriving DecidableEq, Repr

def OpenIntentKind.name : OpenIntentKind → Text
  | .agent => ['a', 'g', 'e', 'n', 't']
  | .terminal => ['t', 'e', 'r', 'm', 'i', 'n', 'a', 'l']
  | .draft => ['d', 'r', 'a', 'f', 't']
  | .file => ['f', 'i', 'l', 'e']
  | .setup => ['s', 'e', 't', 'u', 'p']

def OpenIntentKind.all : List OpenIntentKind := [.agent, .terminal, .draft, .file, .setup]

def parseWorkspaceOpenIntent (value : Text) : Option WorkspaceOpenIntent :=
  (trimNonEmpty value).bind fun normalized =>
    let kind := normalized.takeWhile (· ≠ ':')
    let rest := normalized.dropWhile (· ≠ ':')
    -- there is a separator, neither at the start nor at the end
    if rest.isEmpty || kind.isEmpty || rest.length ≤ 1 then none
    else
      (trimNonEmpty (rest.drop 1)).bind fun payload =>
        (OpenIntentKind.all.find? fun known => known.name == kind).bind fun known =>
          match known with
          | .agent | .terminal | .draft => some ⟨known, payload⟩
          | .file => (nonEmpty (decodeFilePathFromPathSegment payload)).map fun path => ⟨known, path⟩
          | .setup => (nonEmpty (decodeWorkspaceIdFromPathSegment payload)).map fun id => ⟨known, id⟩

/-- The text of an intent, as those write it who build a route. -/
def WorkspaceOpenIntent.text (intent : WorkspaceOpenIntent) : Text :=
  intent.kind.name ++ ':' ::
    match intent.kind with
    | .agent | .terminal | .draft => intent.payload
    | .file => encodeFilePathForPathSegment intent.payload
    | .setup => encodeWorkspaceIdForPathSegment intent.payload

/-- `new URLSearchParams(search).get(name)` -/
def searchParam (search name : Text) : Option Text :=
  Uri.formGet name (if search.head? = some '?' then search.tail else search)

def openParam : Text := ['o', 'p', 'e', 'n']

def getHostWorkspaceOpenParamFromPathname (pathname : Text) : Option Text :=
  let search := extractSearch pathname
  if search.isEmpty then none
  else (searchParam search openParam).filter fun value => (parseWorkspaceOpenIntent value).isSome

def parseHostWorkspaceOpenIntentFromPathname (pathname : Text) : Option WorkspaceOpenIntent :=
  (getHostWorkspaceOpenParamFromPathname pathname).bind parseWorkspaceOpenIntent

/-! ## Routes -/

structure HostWorkspaceRoute where
  serverId : Text
  workspaceId : Text
  deriving DecidableEq, Repr

def hostSegment : Text := ['h']

def workspaceSegment : Text := ['w', 'o', 'r', 'k', 's', 'p', 'a', 'c', 'e']

/-- `/^\/h\/([^/]+)\/workspace\/([^/]+)\/?$/` -/
def matchHostWorkspace (pathOnly : Text) : Option (Text × Text) :=
  let groups := fun before h serverId workspace workspaceId =>
    if before = [] ∧ h = hostSegment ∧ workspace = workspaceSegment ∧ serverId ≠ [] ∧ workspaceId ≠ [] then
      some (serverId, workspaceId)
    else none
  match pathOnly.splitOn '/' with
  | [before, h, serverId, workspace, workspaceId] => groups before h serverId workspace workspaceId
  | [before, h, serverId, workspace, workspaceId, []] => groups before h serverId workspace workspaceId
  | _ => none

def parseHostWorkspaceRouteFromPathname (pathname : Text) : Option HostWorkspaceRoute :=
  (matchHostWorkspace (stripSearchAndHash pathname)).bind fun groups =>
    (trimNonEmpty (decodeSegment groups.1)).bind fun serverId =>
      (nonEmpty (decodeWorkspaceIdFromPathSegment groups.2)).map fun workspaceId => ⟨serverId, workspaceId⟩

def rootRoute : Text := ['/']

def buildHostWorkspaceRoute (serverId workspaceId : Text) : Text :=
  match trimNonEmpty serverId, trimNonEmpty workspaceId with
  | some serverId, some workspaceId =>
    let encoded := encodeWorkspaceIdForPathSegment workspaceId
    if encoded.isEmpty then rootRoute
    else '/' :: hostSegment ++ '/' :: encodeSegment serverId ++ '/' :: workspaceSegment ++
      '/' :: encodeSegment encoded
  | _, _ => rootRoute

def buildHostWorkspaceOpenRoute (serverId workspaceId openIntent : Text) : Text :=
  let base := buildHostWorkspaceRoute serverId workspaceId
  match trimNonEmpty openIntent with
  | none => base
  | some openIntent =>
    if base = rootRoute then base
    else base ++ '?' :: openParam ++ '=' :: Uri.encodeComponent openIntent

end Orqara.Routes
