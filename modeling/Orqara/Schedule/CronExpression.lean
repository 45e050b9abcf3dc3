import Orqara.Library.Fallible
import Orqara.Library.JsNumber
import Orqara.Library.JsString

/-!
# Cron expressions

Five fields between white space. A field is a list of parts; a part is a star, a range or one
value, and a star or a range may go in steps.
-/

namespace Orqara.Schedule

structure CronFieldBounds where
  min : ℕ
  max : ℕ
  name : String

/-- The values that a field has. -/
structure CronFieldMatcher where
  allowed : List ℕ

def CronFieldMatcher.isMatch (field : CronFieldMatcher) (value : ℤ) : Bool :=
  field.allowed.any fun v => (v : ℤ) = value

structure ParsedCronExpression where
  minute : CronFieldMatcher
  hour : CronFieldMatcher
  dayOfMonth : CronFieldMatcher
  month : CronFieldMatcher
  dayOfWeek : CronFieldMatcher

def minuteBounds : CronFieldBounds := ⟨0, 59, "minute"⟩

def hourBounds : CronFieldBounds := ⟨0, 23, "hour"⟩

def dayOfMonthBounds : CronFieldBounds := ⟨1, 31, "day-of-month"⟩

def monthBounds : CronFieldBounds := ⟨1, 12, "month"⟩

def dayOfWeekBounds : CronFieldBounds := ⟨0, 6, "day-of-week"⟩

/-! ## Ranges -/

/-- At most `rounds` rounds of the loop, from `value` on. -/
def rangeFrom (stop : ℕ) (step : ℕ+) : ℕ → ℕ → List ℕ
  | 0, _ => []
  | rounds + 1, value =>
    if value ≤ stop then value :: rangeFrom stop step rounds (value + step) else []

/-- Every round comes to a later value, so that the loop ends by itself. -/
def createRange (start stop : ℕ) (step : ℕ+) : List ℕ := rangeFrom stop step (stop + 1 - start) start

/-! ## Numbers -/

def isDigitChar (c : Char) : Bool := JsNumber.isDigit c.toNat

/-- `/^\d+$/` -/
def isNumber (text : List Char) : Bool := !text.isEmpty && text.all isDigitChar

def numberOf (digits : List Char) : JsNumber := JsNumber.ofDigits (digits.map Char.toNat)

/-- `Number.parseInt(text, 10)` of a trimmed text, the sign (whether there is a minus) and what
follows it; nothing for `NaN`. -/
def parseInt (text : List Char) : Option (Bool × JsNumber) :=
  let unsigned := if text.head? = some '-' ∨ text.head? = some '+' then text.tail else text
  let digits := unsigned.takeWhile isDigitChar
  if digits = [] then none else some (text.head? = some '-', numberOf digits)

/-! ## Fields -/

/-- A step has to be written as it would be printed. -/
def parseStep (text : List Char) : Option ℕ+ :=
  match parseInt text with
  | some (false, .finite step) =>
    if h : 0 < step ∧ JsNumber.toText (.finite step) = text.map Char.toNat then some ⟨step, h.1⟩
    else none
  | _ => none

def parseStepPart (part : List Char) (bounds : CronFieldBounds) :
    Except String (List Char × ℕ+) :=
  match part.splitOn '/' with
  | [base] => .ok (base, 1)
  | [base, stepSource] =>
    match parseStep (trimChars stepSource) with
    | some step => .ok (base, step)
    | none => .error ("Invalid cron " ++ bounds.name ++ " step")
  | _ => .error ("Invalid cron " ++ bounds.name ++ " step")

/-- What `/^(\d+)-(\d+)$/` captures. -/
def rangeMatch (base : List Char) : Option (List Char × List Char) :=
  match base.splitOn '-' with
  | [start, stop] => if isNumber start && isNumber stop then some (start, stop) else none
  | _ => none

def parseRange (first last : List Char) (step : ℕ+) (bounds : CronFieldBounds) :
    Except String (List ℕ) :=
  match numberOf first, numberOf last with
  | .finite start, .finite stop =>
    if start > stop ∨ start < bounds.min ∨ stop > bounds.max then
      .error ("Invalid cron " ++ bounds.name ++ " range")
    else .ok (createRange start stop step)
  | _, _ => .error ("Invalid cron " ++ bounds.name ++ " range")

def parseValue (base : List Char) (bounds : CronFieldBounds) : Except String (List ℕ) :=
  match numberOf base with
  | .finite value =>
    if value < bounds.min ∨ value > bounds.max then
      .error ("Invalid cron " ++ bounds.name ++ " value")
    else .ok [value]
  | .infinity => .error ("Invalid cron " ++ bounds.name ++ " value")

def parseBase (base : List Char) (step : ℕ+) (bounds : CronFieldBounds) :
    Except String (List ℕ) :=
  if base = ['*'] then .ok (createRange bounds.min bounds.max step)
  else
    match rangeMatch base with
    | some (first, last) => parseRange first last step bounds
    | none =>
      -- a step behind a single value changes nothing
      if isNumber base then parseValue base bounds
      else .error ("Invalid cron " ++ bounds.name ++ " value")

def parsePart (bounds : CronFieldBounds) (rawPart : List Char) : Except String (List ℕ) :=
  let part := trimChars rawPart
  if part = [] then .error ("Invalid cron " ++ bounds.name ++ " field")
  else (parseStepPart part bounds).bind fun split => parseBase split.1 split.2 bounds

def parseField (source : List Char) (bounds : CronFieldBounds) : Except String CronFieldMatcher :=
  let trimmed := trimChars source
  if trimmed = [] then .error ("Invalid cron " ++ bounds.name ++ " field")
  else ((trimmed.splitOn ',').mapM (parsePart bounds)).map fun parts => ⟨parts.flatten⟩

/-! ## Expressions -/

/-- `split(/\s+/)`; `inSpace` where the last character was white space. -/
def splitSpaces : Bool → List Char → List (List Char)
  | _, [] => [[]]
  | inSpace, c :: cs =>
    if isWhiteSpace c then
      if inSpace then splitSpaces true cs else [] :: splitSpaces true cs
    else (splitSpaces false cs).modifyHead (c :: ·)

def parseCronExpression (expression : String) : Except String ParsedCronExpression :=
  match splitSpaces false (trimChars expression.toList) with
  | [minute, hour, dayOfMonth, month, dayOfWeek] => do
    return {
      minute := ← parseField minute minuteBounds
      hour := ← parseField hour hourBounds
      dayOfMonth := ← parseField dayOfMonth dayOfMonthBounds
      month := ← parseField month monthBounds
      dayOfWeek := ← parseField dayOfWeek dayOfWeekBounds }
  | _ => .error "Cron expressions must have 5 fields"

/-! ## What the values are -/

variable {bounds : CronFieldBounds} {step : ℕ+} {start stop v : ℕ} {base : List Char}
  {values : List ℕ}

end Orqara.Schedule
