import Recurrence.Mention.Findings

namespace Recurrence.Mention

/-! Reading the tokens of a text from left to right. Each token adds to the findings or is
passed over, and may take some of the tokens behind it along. What is found later takes the
place of what was found earlier. -/

structure Spot where
  /-- The tokens before, the nearest one first. -/
  before : List Token
  token : Token
  behind : List Token
deriving Repr

namespace Spot

def next? (spot : Spot) : Option Token := spot.behind[0]?

def second? (spot : Spot) : Option Token := spot.behind[1]?

def nextIs (spot : Spot) (text : String) : Bool :=
  spot.next?.any (· == text.toList)

end Spot

/-- The findings behind a token, and how many tokens behind it were taken along. -/
abbrev Outcome := Step (Findings × Nat)

/-! Numbers -/

/-- The fraction of a number of minutes as seconds; `none` if there is no fraction. -/
def secondsOf (amount : Amount) : Step (Option Nat) :=
  match amount.fraction? with
  | .ok fraction => .ok (fraction.map (·.sixtieths))
  | .error fault => .error (.unsplittable fault)

def Findings.withMinutes (found : Findings) (amount : Amount) : Step Findings := do
  let seconds ← secondsOf amount
  return { found with minute := some amount.whole, second := seconds }

/-- A fraction of an hour sets the minute; a whole number of hours leaves it alone. -/
def Findings.withHours (found : Findings) (amount : Amount) : Step Findings := do
  match ← secondsOf amount with
  | some minutes => return { found with hour := some amount.whole, minute := some minutes }
  | none => return { found with hour := some amount.whole }

/-- Seconds with up to six digits of their fraction. -/
def Findings.withSeconds (found : Findings) (token : Token) : Step Findings :=
  match Text.splitAt '.' token with
  | [whole] => do
      let second ← Step.of? (Token.whole? whole)
      return { found with second := some second, microsecond := some 0 }
  | [whole, fraction] => do
      let second ← Step.of? (Token.whole? whole)
      let kept := (fraction ++ List.replicate (6 - fraction.length) '0').take 6
      let microsecond ← Step.of? (Token.whole? kept)
      return { found with second := some second, microsecond := some microsecond }
  | _ => .error .notADate

def Findings.withUnit (found : Findings) (unit : TimeUnit) (token : Token) (amount : Amount) :
    Step Findings :=
  match unit with
  | .hour => found.withHours amount
  | .minute => found.withMinutes amount
  | .second => found.withSeconds token

def Findings.withDate (found : Findings) (date : Option DateNumbers) : Step Findings := do
  return { found with date := ← Step.of? date }

/-- The unit of a number: behind it, behind a blank, or the next smaller unit than the one
before it. The count is that of the tokens taken along. -/
def unitOf? (spot : Spot) : Option (Option TimeUnit × Nat) :=
  match spot.next?.bind Token.unit? with
  | some unit => some (some unit, 1)
  | none =>
      match if spot.nextIs " " then spot.second?.bind Token.unit? else none with
      | some unit => some (some unit, 2)
      | none =>
          match spot.before with
          | last :: earlier =>
              match last.unit? with
              | some unit => some (unit.finer?, 0)
              | none =>
                  if spot.behind = [] ∧ last = [' '] then
                    (earlier.head?.bind Token.unit?).map fun unit => (unit.finer?, 0)
                  else none
          | [] => none

/-- Two or four digits behind a full date are the hour and the minute. -/
def isClockBehindDate (found : Findings) (spot : Spot) : Bool :=
  found.date.numbers.length == 3 && (spot.token.length == 2 || spot.token.length == 4) &&
    found.hour.isNone && !spot.nextIs ":" && (spot.next?.bind Token.unit?).isNone

def readClockBehindDate (found : Findings) (token : Token) : Outcome := do
  let hour ← Step.of? (Token.whole? (token.take 2))
  if token.length = 4 then
    let minute ← Step.of? (Token.whole? (token.drop 2))
    return ({ found with hour := some hour, minute := some minute }, 0)
  else return ({ found with hour := some hour }, 0)

/-- Six digits are a date, or with a fraction or behind a date a time of day. -/
def readSixDigits (found : Findings) (token : Token) : Outcome := do
  let (first, second, third) := (token.take 2, (token.drop 2).take 2, token.drop 4)
  if found.date.numbers = [] ∧ !token.contains '.' then
    let date ← Step.of? do
      let date ← found.date.addToken? first
      let date ← date.addToken? second
      date.addToken? third
    return ({ found with date := date }, 0)
  else
    let hour ← Step.of? (Token.whole? first)
    let minute ← Step.of? (Token.whole? second)
    let found ← { found with hour := some hour, minute := some minute }.withSeconds third
    return (found, 0)

/-- Eight digits are a date, and four or six more of them a time of day behind it. -/
def readTimestamp (found : Findings) (token : Token) : Outcome := do
  let date ← Step.of? do
    let date ← found.date.addToken? (token.take 4)
    let date ← date.addToken? ((token.drop 4).take 2)
    date.addToken? ((token.drop 6).take 2)
  let found := { found with date := date }
  if token.length = 8 then return (found, 0)
  else
    let hour ← Step.of? (Token.whole? ((token.drop 8).take 2))
    let minute ← Step.of? (Token.whole? ((token.drop 10).take 2))
    let found := { found with hour := some hour, minute := some minute }
    if token.length = 12 then return (found, 0)
    else
      let second ← Step.of? (Token.whole? (token.drop 12))
      return ({ found with second := some second }, 0)

/-- An hour before a colon; the minute, which may have a fraction, and the second behind. -/
def readColonTime (found : Findings) (hour : Amount) (minuteToken : Token) (further : List Token) :
    Outcome := do
  let minute ← Step.of? minuteToken.amount?
  let found ← { found with hour := some hour.whole }.withMinutes minute
  match further with
  | [':'] :: seconds :: _ => return (← found.withSeconds seconds, 4)
  | _ => return (found, 2)

def addMember? (date : DateNumbers) (token : Token) : Option DateNumbers :=
  match token.month? with
  | some month => date.addMonth? month
  | none => date.addToken? token

/-- The numbers of a date with the same separator between them. -/
def readSeparatedDate (found : Findings) (spot : Spot) (separator : Token) : Outcome := do
  let date ← Step.of? (found.date.addToken? spot.token)
  match spot.behind.drop 1 with
  | [] => return ({ found with date := date }, 1)
  | second :: further =>
      if second.isFiller then return ({ found with date := date }, 1)
      else
        let date ← Step.of? (addMember? date second)
        match further with
        | again :: others =>
            if again = separator then
              let third ← Step.of? others.head?
              return ({ found with date := ← Step.of? (addMember? date third) }, 4)
            else return ({ found with date := date }, 2)
        | [] => return ({ found with date := date }, 2)

/-- A number that stands alone: an hour if `am` or `pm` follows behind one filler, else a
part of the date. -/
def readLoneNumber (found : Findings) (spot : Spot) (amount : Amount) : Outcome :=
  match spot.second?.bind Token.half? with
  | some half => .ok ({ found with hour := some (half.place amount.whole) }, 2)
  | none => do return (← found.withDate (found.date.addAmount? amount), 1)

/-- A number that touches a word: an hour before `am` or `pm`, or a day, or nothing. -/
def readTouchingNumber (found : Findings) (spot : Spot) (amount : Amount) : Outcome :=
  match if amount.whole < 24 then spot.next?.bind Token.half? else none with
  | some half => .ok ({ found with hour := some (half.place amount.whole) }, 1)
  | none =>
      if found.date.allowsDay amount then do
        return (← found.withDate (found.date.addAmount? amount), 0)
      else .ok (found, 0)

def readNumber (found : Findings) (spot : Spot) (amount : Amount) : Outcome :=
  let token := spot.token
  let length := token.length
  if isClockBehindDate found spot then readClockBehindDate found token
  else if length = 6 ∨ 6 < length ∧ token.findIdx? (· == '.') = some 6 then
    readSixDigits found token
  else if length = 8 ∨ length = 12 ∨ length = 14 then readTimestamp found token
  else match unitOf? spot with
    | some (some unit, taken) => do return (← found.withUnit unit token amount, taken)
    | some (none, taken) => .ok (found, taken)
    | none =>
        match spot.behind with
        | [':'] :: minute :: further => readColonTime found amount minute further
        | next :: _ =>
            if next = ['-'] ∨ next = ['/'] ∨ next = ['.'] then readSeparatedDate found spot next
            else if next.isFiller then readLoneNumber found spot amount
            else readTouchingNumber found spot amount
        | [] => readLoneNumber found spot amount

/-! Words and signs -/

/-- A month by its name, with the day and the year behind hyphens or slashes, or the year
behind the word "of". -/
def readMonth (found : Findings) (spot : Spot) (month : Nat) : Outcome := do
  let date ← Step.of? (found.date.addMonth? month)
  match spot.behind with
  | next :: others =>
      if next = ['-'] ∨ next = ['/'] then
        let second ← Step.of? others.head?
        let date ← Step.of? (date.addToken? second)
        match others.drop 1 with
        | again :: further =>
            if again = next then
              let third ← Step.of? further.head?
              return ({ found with date := ← Step.of? (date.addToken? third) }, 4)
            else return ({ found with date := date }, 2)
        | [] => return ({ found with date := date }, 2)
      else match spot.behind with
        | [' '] :: word :: [' '] :: year :: _ =>
            if Text.lower word = "of".toList then
              if year.all Text.isDigitSign then
                let value ← Step.of? year.whole?
                let date ← Step.of? (date.addYear? (fullYear value false) true)
                return ({ found with date := date }, 4)
              else return ({ found with date := date }, 4)
            else return ({ found with date := date }, 0)
        | _ => return ({ found with date := date }, 0)
  | [] => return ({ found with date := date }, 0)

/-- Half of the day, which is taken once and only behind an hour up to twelve. -/
def readHalf (found : Findings) (half : Half) : Findings :=
  match found.hour, found.half with
  | some hour, none =>
      if hour ≤ 12 then { found with hour := some (half.place hour), half := some half }
      else found
  | _, _ => found

/-- The length of an offset in hours and minutes, and the tokens behind it. -/
def readOffsetLength (behind : List Token) : Step (Nat × List Token) :=
  match behind with
  | [] => .error .notADate
  | first :: others => do
      if first.length = 4 then
        let hours ← Step.of? (Token.whole? (first.take 2))
        let minutes ← Step.of? (Token.whole? (first.drop 2))
        return (3600 * hours + 60 * minutes, others)
      else if others.head? = some [':'] then
        let hours ← Step.of? first.whole?
        let minutes ← Step.of? ((others.drop 1).head?.bind Token.whole?)
        return (3600 * hours + 60 * minutes, others.drop 2)
      else if first.length ≤ 2 then
        return (3600 * (← Step.of? first.whole?), others)
      else .error .notADate

def bracketedZone? (found : Findings) (behind : List Token) : Option Token :=
  match behind with
  | gap :: ['('] :: name :: [')'] :: _ =>
      if gap.isFiller && 3 ≤ name.length && name.isZoneName && found.hour.isSome &&
          found.zone.isNone then
        some name
      else none
  | _ => none

def readOffset (found : Findings) (ahead : Bool) (behind : List Token) (taken : Nat) : Outcome := do
  let (length, others) ← readOffsetLength behind
  let offset : Int := if ahead then length else -length
  let taken := taken + (behind.length - others.length)
  match bracketedZone? found others with
  | some zone => return ({ found with offset := some offset, zone := some zone }, taken + 4)
  | none => return ({ found with offset := some offset }, taken)

def Findings.inZone (found : Findings) (name : Token) : Findings :=
  { found with zone := some name, offset := if name.isUniversalZone then some 0 else none }

/-- The name of a zone. An offset right behind it counts the other way, from the zone to
universal time, so that universal time itself is not the zone then. -/
def readZone (found : Findings) (spot : Spot) : Outcome :=
  match spot.behind with
  | next :: others =>
      if next.isSign then
        let zone := if spot.token.isUniversalZone then none else some spot.token
        readOffset { found with zone := zone, offset := none } (next == ['-']) others 1
      else .ok (found.inZone spot.token, 0)
  | [] => .ok (found.inZone spot.token, 0)

def readWord (found : Findings) (spot : Spot) : Outcome :=
  let token := spot.token
  match token.weekday?, token.month?, token.half? with
  | some day, _, _ => .ok ({ found with weekday := some day }, 0)
  | none, some month, _ => readMonth found spot month
  | none, none, some half => .ok (readHalf found half, 0)
  | none, none, none =>
      if found.hour.isSome && found.zone.isNone && found.offset.isNone && token.isZoneName then
        readZone found spot
      else if found.hour.isSome && token.isSign then
        readOffset found (token == ['+']) spot.behind 0
      else .ok (found, 0)

def readToken (found : Findings) (spot : Spot) : Outcome :=
  match spot.token.amount? with
  | some amount => readNumber found spot amount
  | none => if spot.token.isBoundlessNumber then .error .notADate else readWord found spot

/-- Reads tokens after `taken` of them have been taken along. -/
def readFrom (found : Findings) : Nat → List Token → List Token → Step Findings
  | _, _, [] => .ok found
  | taken + 1, before, token :: behind => readFrom found taken (token :: before) behind
  | 0, before, token :: behind => do
      let (found, taken) ← readToken found ⟨before, token, behind⟩
      readFrom found taken (token :: before) behind

def findings (text : List Char) : Step Findings :=
  readFrom .nothing 0 [] (tokens text)

end Recurrence.Mention
