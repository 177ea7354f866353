import TablePeek.Width.Classes

/-!
The number of columns a text takes on a terminal. A text is measured from its end, because what
stands to the right of a character can change it: selectors, joiners, skin tones and the second
halves of ligatures. `Context` is what the rest of the text leaves for the character before it.
-/

set_option autoImplicit false

namespace TablePeek.Width

inductive Start where
  | plain
  | lineFeed
  | skinTone
  | flagLetter
  | flagLetters
  | picture
  | joined
  | joinedKeycap
  | joinedFlagLetter
  | joinedFlagEven
  | joinedFlagOdd
  | tagEnd
  | tagLetters (count : Nat)
  | tagDigits (count : Nat)
  | kiratE
  | kiratAi
  | alef
  | lamed
  | joinedLamed
  | ya
  | joinedYa
  | vowelJoinedYa
  | tifinagh
  | joinedTifinagh
  | linkedTifinagh
  | lisuTone
  | orkhonI
  | joinedOrkhonI
  | khmerLetter
deriving DecidableEq, Repr

inductive Selector where
  | none
  | picture
  | text
  | wideQuote
deriving DecidableEq, Repr

structure Context where
  start : Start
  selector : Selector
deriving DecidableEq, Repr

namespace Start

def isLigature : Start → Bool
  | alef | lamed | joinedLamed | ya | joinedYa | vowelJoinedYa | tifinagh | joinedTifinagh
  | linkedTifinagh | lisuTone | orkhonI | joinedOrkhonI | khmerLetter => true
  | _ => false

def isTransparent (s : Start) : Bool := s.isLigature && s ≠ alef

def withJoiner : Start → Start
  | lamed => joinedLamed
  | ya => joinedYa
  | tifinagh => joinedTifinagh
  | orkhonI => joinedOrkhonI
  | s => s

def isJoinedPicture : Start → Bool
  | joined | joinedKeycap => true
  | _ => false

end Start

namespace Context

def plain : Context := ⟨.plain, .none⟩

def ofStart (s : Start) : Context := ⟨s, .none⟩

-- A selector hides all but ligatures; the picture selector also keeps a joined picture.
def select (c : Context) (s : Selector) : Context :=
  if c.start.isLigature || (s = .picture && c.start.isJoinedPicture) then ⟨c.start, s⟩ else ⟨.plain, s⟩

def unselect (c : Context) : Context := if c.start.isLigature then ⟨c.start, .none⟩ else plain

end Context

def isBetween (low high : Nat) (n : Nat) : Bool := low ≤ n && n ≤ high

def isFlagLetter (n : Nat) : Bool := isBetween 0x1F1E6 0x1F1FF n

def isSkinTone (n : Nat) : Bool := isBetween 0x1F3FB 0x1F3FF n

def isTagLetter (n : Nat) : Bool := isBetween 0xE0061 0xE007A n

def isTagDigit (n : Nat) : Bool := isBetween 0xE0030 0xE0039 n

def isTifinagh (n : Nat) : Bool := isBetween 0x2D31 0x2D65 n || n = 0x2D6F

def isQuote (n : Nat) : Bool := n = 0x2018 || n = 0x2019 || n = 0x201C || n = 0x201D

def isIgnorableMark (n : Nat) : Bool :=
  n = 0x34F || isBetween 0x17B4 0x17B5 n || isBetween 0x180B 0x180D n || n = 0x180F || n = 0x200D ||
    isBetween 0xFE00 0xFE0F n || isBetween 0xE0100 0xE01EF n

def isKhmerSubscript (n : Nat) : Bool :=
  isBetween 0x1780 0x1782 n || isBetween 0x1784 0x1787 n || isBetween 0x1789 0x178C n ||
    isBetween 0x178E 0x1793 n || isBetween 0x1795 0x1798 n || isBetween 0x179B 0x179D n ||
    n = 0x17A0 || n = 0x17A2 || n = 0x17A7 || isBetween 0x17AB 0x17AC n || n = 0x17AF

def alone (n : Nat) : Nat :=
  if n = 0x17D8 then 3
  else if zeroWidth.mem n then 0
  else if doubleWidth.mem n then 2
  else 1

def startOf (n : Nat) : Context :=
  if n = 0xFE0F then ⟨.plain, .picture⟩
  else if n = 0xFE0E then ⟨.plain, .text⟩
  else if n = 0xFE01 then ⟨.plain, .wideQuote⟩
  else if isFlagLetter n then .ofStart .flagLetter
  else if isSkinTone n then .ofStart .skinTone
  else if emojiPresentation.mem n then .ofStart .picture
  else if joiningAlef.mem n then .ofStart .alef
  else if n = 0x5DC then .ofStart .lamed
  else if n = 0x1A10 then .ofStart .ya
  else if isTifinagh n then .ofStart .tifinagh
  else if isBetween 0xA4FC 0xA4FD n then .ofStart .lisuTone
  else if n = 0x10C03 then .ofStart .orkhonI
  else if isKhmerSubscript n then .ofStart .khmerLetter
  else if n = 0x16D67 then .ofStart .kiratE
  else if n = 0x16D68 then .ofStart .kiratAi
  else .plain

def standsAlone (n : Nat) : Int × Context := (alone n, startOf n)

def join? (n : Nat) : Start → Option (Int × Start)
  | .alef =>
    if joiningLam.mem n then some (0, .plain)
    else if alone n = 0 && !opaqueZeroWidth.mem n then some (0, .alef)
    else none
  | .joinedLamed => if n = 0x5D0 then some (0, .plain) else none
  | .khmerLetter => if n = 0x17D2 then some (-1, .plain) else none
  | .joinedYa => if n = 0x1A17 then some (0, .vowelJoinedYa) else none
  | .vowelJoinedYa => if n = 0x1A15 then some (0, .plain) else none
  | .tifinagh => if n = 0x2D7F then some (1, .linkedTifinagh) else none
  | .joinedTifinagh =>
    if n = 0x2D7F then some (1, .linkedTifinagh)
    else if isTifinagh n then some (0, .plain)
    else none
  | .linkedTifinagh => if isTifinagh n then some (-1, .plain) else none
  | .lisuTone => if isBetween 0xA4F8 0xA4FB n then some (0, .plain) else none
  | .joinedOrkhonI => if n = 0x10C32 then some (0, .plain) else none
  | .kiratE =>
    if n = 0x16D63 then some (0, .plain)
    else if n = 0x16D67 then some (0, .kiratAi)
    else if n = 0x16D68 then some (1, .kiratE)
    else if n = 0x16D69 then some (0, .plain)
    else none
  | .kiratAi => if n = 0x16D63 then some (0, .plain) else none
  | .skinTone =>
    if modifierBase.mem n then some (0, .picture)
    else if n = 0x200D then some (0, .joined)
    else none
  | .flagLetter => if isFlagLetter n then some (1, .flagLetters) else none
  | .flagLetters =>
    if isFlagLetter n then some (1, .flagLetters)
    else if n = 0x200D then some (0, .joined)
    else none
  | .picture => if n = 0x200D then some (0, .joined) else none
  | .joined =>
    if n = 0x20E3 then some (0, .joinedKeycap)
    else if isFlagLetter n then some (1, .joinedFlagLetter)
    else if isSkinTone n then some (0, .skinTone)
    else if n = 0xE007F then some (0, .tagEnd)
    else if emojiPresentation.mem n then some (0, .picture)
    else none
  | .joinedFlagLetter => if isFlagLetter n then some (-1, .joinedFlagEven) else none
  | .joinedFlagOdd =>
    if isFlagLetter n then some (-1, .joinedFlagEven)
    else if n = 0x200D then some (0, .joined)
    else none
  | .joinedFlagEven =>
    if isFlagLetter n then some (3, .joinedFlagOdd)
    else if n = 0x200D then some (0, .joined)
    else none
  | .tagEnd =>
    if isTagLetter n then some (0, .tagLetters 1)
    else if isTagDigit n then some (0, .tagDigits 1)
    else none
  | .tagLetters k =>
    if isTagLetter n && k < 6 then some (0, .tagLetters (k + 1))
    else if isTagDigit n && k < 5 then some (0, .tagDigits 1)
    else if n = 0x1F3F4 && 3 ≤ k then some (0, .picture)
    else none
  | .tagDigits k =>
    if isTagDigit n && k < 3 then some (0, .tagDigits (k + 1))
    else if n = 0x1F3F4 && k = 3 then some (0, .picture)
    else none
  | _ => none

def addWide (n : Nat) (c : Context) : Int × Context :=
  if c = .plain then standsAlone n
  else if n = 0xFE0F then (0, c.select .picture)
  else if n = 0xFE0E then (0, c.select .text)
  else if c.selector = .text && textVariation.mem n then (1, .plain)
  else if c.selector = .wideQuote && isQuote n then (2, .plain)
  else if c.start.isTransparent && n = 0x200D then (0, .ofStart c.start.withJoiner)
  else if c.start.isTransparent && isIgnorableMark n then (0, .ofStart c.start)
  else
    match join? n c.start with
    | some (w, s) => (w, .ofStart s)
    | none => standsAlone n

-- Controls take a column each, a carriage return before a line feed none.
def addPlain (n : Nat) (c : Context) : Int × Context :=
  if n = 0x0A then (1, .ofStart .lineFeed)
  else if n = 0x0D && c = .ofStart .lineFeed then (0, .plain)
  else if n ≤ 0xA0 then (1, .plain)
  else addWide n c

def add (ch : Char) (c : Context) : Int × Context :=
  let n := ch.toNat
  if c.selector = .picture then
    if emojiVariation.mem n then (if c.start.isJoinedPicture then 0 else 2, .ofStart .picture)
    else addPlain n c.unselect
  else addPlain n c

def measure (cs : List Char) : Int × Context :=
  cs.foldr (fun ch (w, c) => let (v, d) := add ch c; (w + v, d)) (0, .plain)

def ofText (cs : List Char) : Nat := (measure cs).1.toNat

end TablePeek.Width
