import Mathlib.Data.List.DropRight
import Orqara.Library.JsonParse

/-!
# Arguments on a line of cmd.exe

On Windows a `.cmd` or `.bat` shim runs through cmd.exe, which parses the line, hands what it read to
the shim, which parses it once more and passes it on to a program that splits it into arguments. An
argument is quoted for that program and then escaped twice.
-/

namespace Orqara.Terminal

open JsonParse List

variable {u : UInt16}

def caret : UInt16 := 0x5E
def quote : UInt16 := 0x22
def backslash : UInt16 := 0x5C
def blank : UInt16 := 0x20
def tab : UInt16 := 0x09
def carriageReturn : UInt16 := 0x0D
def lineFeed : UInt16 := 0x0A

/-- The characters `( ) % ! ^ "`, the backtick and `< > & | ; , space * ?`. -/
def cmdExeMetaChars : Units :=
  [0x28, 0x29, 0x25, 0x21, caret, quote, 0x60, 0x3C, 0x3E, 0x26, 0x7C, 0x3B, 0x2C, blank, 0x2A, 0x3F]

/-! ## Escaping -/

def escapeCmdExeMetaChars (text : Units) : Units :=
  text.flatMap fun u => if u ∈ cmdExeMetaChars then [caret, u] else [u]

/-- A line break is one space, CR LF together too. -/
def normalizeNewlines : Units → Units
  | [] => []
  | [u] => [if u = carriageReturn ∨ u = lineFeed then blank else u]
  | u :: next :: rest =>
    if u = carriageReturn ∧ next = lineFeed then blank :: normalizeNewlines rest
    else if u = carriageReturn ∨ u = lineFeed then blank :: normalizeNewlines (next :: rest)
    else u :: normalizeNewlines (next :: rest)

/-- Every quote escaped and the backslashes before it doubled, where `n` backslashes have been read
that may stand before a quote. -/
def escapeQuotes : ℕ → Units → Units
  | n, [] => List.replicate n backslash
  | n, u :: rest =>
    if u = backslash then escapeQuotes (n + 1) rest
    else if u = quote then
      List.replicate (n + n) backslash ++ backslash :: quote :: escapeQuotes 0 rest
    else List.replicate n backslash ++ u :: escapeQuotes 0 rest

/-- The backslashes at the end doubled. -/
def doubleTrailing (units : Units) : Units := units ++ units.rtakeWhile (· = backslash)

def escapeCmdExeArgument (rawArg : Units) : Units :=
  let arg := normalizeNewlines rawArg
  let escaped := doubleTrailing (escapeQuotes 0 arg)
  escapeCmdExeMetaChars (escapeCmdExeMetaChars (quote :: (escaped ++ [quote])))

/-- The part of the command line behind `/d /s /c`, without the quotes that `/s` takes off. -/
def cmdExeCommand (resolved : Units) (args : List Units) : Units :=
  [blank].intercalate (escapeCmdExeMetaChars resolved :: args.map escapeCmdExeArgument)

/-! ## Who reads the line -/

/-- One parse by cmd.exe: a caret goes, and the character behind it stands for itself. -/
def cmdParse : Units → Units
  | [] => []
  | [u] => if u = caret then [] else [u]
  | u :: next :: rest =>
    if u = caret then next :: cmdParse rest else u :: cmdParse (next :: rest)

/-- Such a parse meets no character that cmd.exe acts on. -/
def CaretEscaped : Units → Prop
  | [] => True
  | [u] => u ∉ cmdExeMetaChars
  | u :: next :: rest =>
    if u = caret then CaretEscaped rest else u ∉ cmdExeMetaChars ∧ CaretEscaped (next :: rest)

/-- The argument that ends behind `n` backslashes. -/
def endArgument (n : ℕ) (current : Option Units) : List Units :=
  if n = 0 then current.toList else [current.getD [] ++ List.replicate n backslash]

/-- The arguments of a command line as `CommandLineToArgvW` finds them. Before a quote, two
backslashes are one and a backslash left over makes the quote a character. `n` backslashes have been
read behind the part `current` of an argument. -/
def argvFrom : Bool → ℕ → Option Units → Units → List Units
  | _, n, current, [] => endArgument n current
  | inQuotes, n, current, u :: rest =>
    let before := current.getD []
    if u = backslash then argvFrom inQuotes (n + 1) current rest
    else if u = quote then
      if n % 2 = 0 then
        argvFrom (!inQuotes) 0 (some (before ++ List.replicate (n / 2) backslash)) rest
      else argvFrom inQuotes 0 (some (before ++ List.replicate (n / 2) backslash ++ [quote])) rest
    else if (u = blank ∨ u = tab) ∧ inQuotes = false then
      endArgument n current ++ argvFrom false 0 none rest
    else argvFrom inQuotes 0 (some (before ++ List.replicate n backslash ++ [u])) rest

def commandLineToArgv (line : Units) : List Units := argvFrom false 0 none line

/-! ## Carets -/

theorem escapeCmdExeMetaChars_cons (u : UInt16) (rest : Units) :
    escapeCmdExeMetaChars (u :: rest) =
      (if u ∈ cmdExeMetaChars then [caret, u] else [u]) ++ escapeCmdExeMetaChars rest :=
  flatMap_cons

theorem caret_mem_metaChars : caret ∈ cmdExeMetaChars := by decide

theorem ne_caret (h : u ∉ cmdExeMetaChars) : u ≠ caret := by
  rintro rfl
  exact h caret_mem_metaChars

theorem cmdParse_caret (u : UInt16) (rest : Units) :
    cmdParse (caret :: u :: rest) = u :: cmdParse rest := by
  simp [cmdParse]

theorem cmdParse_cons (h : u ≠ caret) (rest : Units) :
    cmdParse (u :: rest) = u :: cmdParse rest := by
  cases rest <;> simp [cmdParse, h]

theorem caretEscaped_caret (u : UInt16) (rest : Units) :
    CaretEscaped (caret :: u :: rest) ↔ CaretEscaped rest := by
  simp [CaretEscaped]

theorem caretEscaped_cons (h : u ∉ cmdExeMetaChars) (rest : Units) :
    CaretEscaped (u :: rest) ↔ CaretEscaped rest := by
  cases rest <;> simp [CaretEscaped, h, ne_caret h]

/-- cmd.exe reads what was escaped for it, whatever stands behind. -/
theorem cmdParse_escape_append (text rest : Units) :
    cmdParse (escapeCmdExeMetaChars text ++ rest) = text ++ cmdParse rest := by
  induction text with
  | nil => rfl
  | cons u text ih =>
    rw [escapeCmdExeMetaChars_cons]
    split
    · rw [append_assoc, cons_append, singleton_append, cmdParse_caret, ih]
      rfl
    · rename_i hplain
      rw [append_assoc, singleton_append, cmdParse_cons (ne_caret hplain), ih]
      rfl

theorem cmdParse_escape (text : Units) : cmdParse (escapeCmdExeMetaChars text) = text := by
  have h := cmdParse_escape_append text []
  rwa [append_nil, cmdParse, append_nil] at h

theorem caretEscaped_escape (text : Units) : CaretEscaped (escapeCmdExeMetaChars text) := by
  induction text with
  | nil => trivial
  | cons u text ih =>
    rw [escapeCmdExeMetaChars_cons]
    split
    · exact (caretEscaped_caret u _).2 ih
    · rename_i hplain
      exact (caretEscaped_cons hplain _).2 ih

/-! ## Backslashes and quotes -/

theorem doubleTrailing_replicate (n : ℕ) :
    doubleTrailing (List.replicate n backslash) = List.replicate (n + n) backslash := by
  have hall : (List.replicate n backslash).rtakeWhile (· = backslash) =
      List.replicate n backslash := by
    rw [rtakeWhile_eq_self_iff]
    intro u hu
    simpa using eq_of_mem_replicate hu
  rw [doubleTrailing, hall, replicate_append_replicate]

/-- Only backslashes behind every other character are doubled. -/
theorem doubleTrailing_append_cons (h : u ≠ backslash) (units rest : Units) :
    doubleTrailing (units ++ u :: rest) = units ++ u :: doubleTrailing rest := by
  have htrailing : (units ++ u :: rest).rtakeWhile (· = backslash) =
      rest.rtakeWhile (· = backslash) := by
    induction rest using List.reverseRecOn with
    | nil => simp [h]
    | append_singleton rest v ih =>
      have hassoc : units ++ u :: (rest ++ [v]) = units ++ u :: rest ++ [v] := by simp
      rw [hassoc, rtakeWhile_concat, rtakeWhile_concat, ih]
  rw [doubleTrailing, htrailing, doubleTrailing, append_assoc, cons_append]

section

variable (inQuotes : Bool)

theorem argvFrom_backslashes (n k : ℕ) (current : Option Units) (rest : Units) :
    argvFrom inQuotes n current (List.replicate k backslash ++ rest) =
      argvFrom inQuotes (n + k) current rest := by
  induction k generalizing n with
  | zero => rfl
  | succ k ih =>
    have hstep : argvFrom inQuotes n current
        (List.replicate (k + 1) backslash ++ rest) =
        argvFrom inQuotes (n + 1) current (List.replicate k backslash ++ rest) := by
      rw [replicate_succ, cons_append, argvFrom, if_pos rfl]
    rw [hstep, ih, Nat.add_assoc, Nat.add_comm 1 k]

theorem argvFrom_quote (n : ℕ) (current : Option Units) (rest : Units) :
    argvFrom inQuotes (n + n) current (quote :: rest) =
      argvFrom (!inQuotes) 0 (some (current.getD [] ++ List.replicate n backslash)) rest := by
  have heven : (n + n) % 2 = 0 := by omega
  have hhalf : (n + n) / 2 = n := by omega
  simp [argvFrom, heven, hhalf, show quote ≠ backslash by decide]

theorem argvFrom_escapedQuote (n : ℕ) (current : Option Units) (rest : Units) :
    argvFrom inQuotes (n + n) current (backslash :: quote :: rest) =
      argvFrom inQuotes 0 (some (current.getD [] ++ List.replicate n backslash ++ [quote])) rest := by
  have hodd : ¬ (n + n + 1) % 2 = 0 := by omega
  have hhalf : (n + n + 1) / 2 = n := by omega
  simp [argvFrom, hodd, hhalf, show quote ≠ backslash by decide]

end

/-- Inside quotes, blanks too are characters of the argument. -/
theorem argvFrom_quoted_cons (hslash : u ≠ backslash) (hquote : u ≠ quote) (n : ℕ)
    (current : Option Units) (rest : Units) :
    argvFrom true n current (u :: rest) =
      argvFrom true 0 (some (current.getD [] ++ List.replicate n backslash ++ [u])) rest := by
  simp [argvFrom, hslash, hquote]

/-- What was read of an argument behind its opening quote: all of it at the closing quote. -/
theorem argvFrom_escapeQuotes (n : ℕ) (arg current rest : Units) :
    argvFrom true 0 (some current) (doubleTrailing (escapeQuotes n arg) ++ quote :: rest) =
      argvFrom false 0 (some (current ++ List.replicate n backslash ++ arg)) rest := by
  induction arg generalizing n current with
  | nil =>
    have hescape : escapeQuotes n [] = List.replicate n backslash := rfl
    rw [hescape, doubleTrailing_replicate, argvFrom_backslashes, Nat.zero_add, argvFrom_quote,
      append_nil]
    rfl
  | cons u arg ih =>
    rw [escapeQuotes]
    split
    · -- The backslash is kept back until it is known what stands behind it.
      rename_i hslash
      rw [ih, hslash, replicate_succ']
      simp
    · rename_i hslash
      split
      · rename_i hquote
        have hsplit : List.replicate (n + n) backslash ++ backslash :: quote :: escapeQuotes 0 arg =
            (List.replicate (n + n) backslash ++ [backslash]) ++ quote :: escapeQuotes 0 arg := by
          simp
        rw [hsplit, doubleTrailing_append_cons (by decide), append_assoc, append_assoc,
          argvFrom_backslashes, Nat.zero_add, cons_append, nil_append, cons_append,
          argvFrom_escapedQuote, ih, hquote]
        simp
      · rename_i hquote
        rw [doubleTrailing_append_cons hslash, append_assoc, argvFrom_backslashes,
          Nat.zero_add, cons_append, argvFrom_quoted_cons hslash hquote, ih]
        simp

/-! ## One argument and a list of them -/

/-- What the shim is handed, and what the program is. -/
theorem cmdParse_escapeCmdExeArgument (rawArg : Units) :
    cmdParse (cmdParse (escapeCmdExeArgument rawArg)) =
      quote :: (doubleTrailing (escapeQuotes 0 (normalizeNewlines rawArg)) ++ [quote]) := by
  rw [escapeCmdExeArgument, cmdParse_escape, cmdParse_escape]

theorem argvFrom_argument (arg rest : Units) :
    argvFrom false 0 none (quote :: (doubleTrailing (escapeQuotes 0 arg) ++ quote :: rest)) =
      argvFrom false 0 (some arg) rest := by
  have hopen := argvFrom_quote false 0 none
    (doubleTrailing (escapeQuotes 0 arg) ++ quote :: rest)
  rw [Nat.zero_add] at hopen
  rw [hopen, Bool.not_false, argvFrom_escapeQuotes]
  rfl

end Orqara.Terminal
