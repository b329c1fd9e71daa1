import TagTemplate.Yaml.BlockText
import TagTemplate.Yaml.Folded
import TagTemplate.Yaml.Layout

/-!
# Cutting YAML text into tokens

The tokens of a text are found in one walk over its characters. The walk knows the layout so far and
the spot it is at: between tokens, or inside one that takes more than a look ahead to read. What a
character between tokens begins is decided by `begin?`.
-/

namespace TagTemplate.Yaml

/-- Where the walk is. -/
inductive Spot
  | between
  | comment
  /-- Behind a directive, on its line. -/
  | directive
  /-- Inside a token that is placed already, with some of its characters to come. -/
  | rest (left : Nat)
  | plain (sofar : Folded)
  /-- Between quotes, behind the given characters, the last one first; whether the next one cannot
  end the text. -/
  | quoted (quote : Char) (sofar : Text) (escaped : Bool)
  /-- On the line of the indicator of a block text, in the margin of a line, and behind it. -/
  | blockHead (sofar : BlockText) | blockMargin (sofar : BlockText) | blockLine (sofar : BlockText)

/-- The spot where so many characters of a placed token are to come. -/
def Spot.ofRest (left : Nat) : Spot := if left = 0 then .between else .rest left

/-- What the walk does next. -/
abbrev Next := Option (Layout × Spot)

/-! ### Between tokens -/

/-- The characters that begin neither a plain text nor anything else. -/
def reserved : List Char := ['\t', '|', '>', '%', '@', '\x60']

/-- Begins a flow collection. -/
def beginFlow? (l : Layout) (c : Char) : Next := do
  let l := (← l.mark?).push (if c = '[' then .openList else .openMapping)
  return ({ l.forward c with candidate := none, outer := l.candidate :: l.outer, fresh := true },
    .between)

/-- Ends a flow collection. -/
def endFlow? (l : Layout) (c : Char) : Next := do
  let l := (← l.drop?).push (if c = ']' then .closeList else .closeMapping)
  let l := match l.outer with
    | candidate :: outer => { l with candidate, outer }
    | [] => l
  return ({ l.forward c with fresh := false }, .between)

/-- Meets a colon that begins a value. -/
def beginValue? (l : Layout) : Next := do
  let l ← match l.candidate with
    | some k => pure (l.makeKey k)
    | none => pure { ← l.openHere? .openFields with fresh := !l.inFlow }
  return ((l.push .value).forward ':', .between)

/-- Begins an anchor or an alias in front of `t`. -/
def beginName? (l : Layout) (c : Char) (t : Text) : Next := do
  let name := t.takeWhile isNameChar
  let next := (t.drop name.length).head?
  if name.isEmpty ∨ !next.all (fun c ↦ isGap c || c ∈ ['?', ':', ',', ']', '\x7d', '%', '@', '\x60'])
  then none
  let l := (← l.mark?).push (if c = '*' then .aliasOf name else .anchor name)
  return ({ l.forward c with fresh := false }, .ofRest name.length)

/-- Begins a tag in front of `t`. -/
def beginTag? (l : Layout) (t : Text) : Next := do
  let (name, size) ← TagName.read? t
  if !(t.drop size).head?.all (fun c ↦ isGap c || (l.inFlow && c = ',')) then none
  let l := (← l.mark?).push (.tag name)
  return ({ l.forward '!' with fresh := false }, .ofRest size)

/-- Begins a token with `c`, when `t` follows. -/
def begin? (l : Layout) (c : Char) (t : Text) : Next :=
  if l.place.column = 0 ∧ c = '%' then do
    let l ← l.settleAll.drop?
    return ({ (l.push (.directive (← Directive.read? (restOfLine t)))).forward c with
      fresh := false }, .directive)
  else if l.place.column = 0 ∧ isAnyMark (c :: t) then do
    let l ← l.settleAll.drop?
    return ({ (l.push (if c = '-' then .start else .stop)).forward c with fresh := false }, .rest 2)
  else if c = '[' ∨ c = '\x7b' then beginFlow? l c
  else if c = ']' ∨ c = '\x7d' then endFlow? l c
  else if c = ',' then do
    return ({ ((← l.drop?).push .comma).forward c with fresh := true }, .between)
  else if c = '-' ∧ gapFollows t then do
    let l ← (← l.openHere? .openItems).drop?
    return ({ (l.push .item).forward c with fresh := true }, .between)
  else if c = '?' ∧ (l.inFlow ∨ gapFollows t) then do
    let l ← (← l.openHere? .openFields).drop?
    return ({ (l.push .key).forward c with fresh := !l.inFlow }, .between)
  else if c = ':' ∧ (l.inFlow ∨ gapFollows t) then beginValue? l
  else if c = '*' ∨ c = '&' then beginName? l c t
  else if c = '!' then beginTag? l t
  else if (c = '|' ∨ c = '>') ∧ !l.inFlow then do
    let text := BlockText.ofHeader (c = '>') (← BlockHeader.read? (restOfLine t)) l.blocks.head?
    return ({ (← l.drop?).forward c with fresh := true }, .blockHead text)
  else if c = '\'' ∨ c = '"' then do
    return ({ (← l.mark?).forward c with fresh := false }, .quoted c [] false)
  else if c ∈ reserved then none
  else do return ({ (← l.mark?).forward c with fresh := false }, .plain (Folded.empty.push c))

/-- Meets a character between tokens. -/
def between? (l : Layout) (c : Char) (t : Text) : Next :=
  -- A byte order mark may begin a line, and takes a column there.
  if c = ' ' ∨ (c = '\ufeff' ∧ l.place.column = 0) then some (l.forward c, .between)
  -- Indentation is made of blanks alone.
  else if c = '\t' ∧ (l.inFlow ∨ !l.fresh) then some (l.forward c, .between)
  else if isBreak c then some (l.newline c, .between)
  else if c = '#' then some (l.forward c, .comment)
  else do begin? (← l.refresh?).settle c t

/-! ### Inside texts -/

/-- Places a text that has ended in front of `c`, which is met between tokens. -/
def endText? (l : Layout) (content : Text) (plain : Bool) (c : Char) (t : Text) : Next :=
  between? (l.push (.text content plain)) c t

/-- Meets a character inside a plain text. -/
def plain? (l : Layout) (f : Folded) (c : Char) (t : Text) : Next :=
  if isBreak c then some (l.nextLine c, .plain (f.newline c))
  else if isWhite c then
    if c = '\t' ∧ f.broken ∧ l.place.column < l.margin then none
    else some (l.forward c, .plain (f.blank c))
  else if c = ':' ∧ l.inFlow ∧ t.head?.any (· ∈ '?' :: flowMarks) then none
  else
    let ends : Bool :=
      (f.broken && !l.inFlow && l.place.column < l.margin) ||
        (f.broken && l.place.column = 0 && isAnyMark (c :: t)) ||
        (c = '#' && !f.gap.isEmpty) || (c = ':' && gapFollows t) || (l.inFlow && c ∈ flowMarks)
    if ends then endText? { l with fresh := l.fresh || f.broken } f.trimmed true c t
    else some (l.forward c, .plain (f.push c))

/-- Meets a character between quotes. -/
def quotedStep? (l : Layout) (quote : Char) (sofar : Text) (escaped : Bool) (c : Char) (t : Text) :
    Next :=
  if l.place.column = 0 ∧ isAnyMark (c :: t) then none
  else
    let l' := if isBreak c then l.nextLine c else l.forward c
    let gather (escaped : Bool) : Next := some (l', .quoted quote (c :: sofar) escaped)
    if escaped then gather false
    else if c = '\\' ∧ quote = '"' then gather true
    else if c ≠ quote then gather false
    else if quote = '\'' ∧ t.head? = some '\'' then gather true
    else do return (l'.push (.text (← quoted? quote sofar.reverse) false), .between)

/-- Meets a character in the margin of a line of a block text. -/
def blockMargin? (l : Layout) (b : BlockText) (c : Char) (t : Text) : Next :=
  let column := l.place.column
  if isBreak c then some (l.nextLine c, .blockMargin ((b.widen column).emptyLine c))
  else if b.isOutside column ∧ c = ' ' then some (l.forward c, .blockMargin b)
  else if b.isOutside column ∧ c = '\t' then none
  else
    let b := b.settle column
    if b.margin = some column then some (l.forward c, .blockLine (b.startLine c))
    else endText? l b.content false c t

/-- Meets a character at a spot, when `t` follows. -/
def step? (l : Layout) (spot : Spot) (c : Char) (t : Text) : Next :=
  match spot with
  | .between => between? l c t
  | .comment => if isBreak c then some (l.newline c, .between) else some (l.forward c, .comment)
  | .directive => if isBreak c then some (l.nextLine c, .between) else some (l.forward c, .directive)
  | .rest left => some (l.forward c, .ofRest (left - 1))
  | .plain f => plain? l f c t
  | .quoted quote sofar escaped => quotedStep? l quote sofar escaped c t
  | .blockHead b =>
    if isBreak c then some (l.nextLine c, .blockMargin b) else some (l.forward c, .blockHead b)
  | .blockMargin b => blockMargin? l b c t
  | .blockLine b =>
    if isBreak c then some (l.nextLine c, .blockMargin (b.endLine c))
    else some (l.forward c, .blockLine (b.push c))

/-! ### The whole text -/

/-- Meets the end of the text. -/
def finish? (l : Layout) (spot : Spot) : Option (List Token) := do
  let l ← match spot with
    | .quoted .. => none
    | .plain f => some (l.push (.text f.trimmed true))
    | .blockHead b | .blockMargin b | .blockLine b => some (l.push (.text b.content false))
    | _ => some l
  return (← l.drop?).settleAll.placed.reverse

/-- The tokens of the text from a spot on. -/
def scan? (l : Layout) (spot : Spot) : Text → Option (List Token)
  | [] => finish? l spot
  | c :: t =>
    match step? l spot c t with
    | some (l, spot) => scan? l spot t
    | none => none

/-- The tokens of the text. -/
def tokens? (t : Text) : Option (List Token) :=
  if t.all isAllowed then scan? {} .between (unifyBreaks t) else none

end TagTemplate.Yaml
