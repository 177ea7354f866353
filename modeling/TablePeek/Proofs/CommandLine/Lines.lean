import Mathlib.Data.List.Nodup
import TablePeek.CommandLine.Scan
import TablePeek.Proofs.Number.Digits
import TablePeek.Proofs.Text.Utf8

set_option autoImplicit false

namespace TablePeek.CommandLine

open Scan (dash equalsSign shape splitLong restValue)
open Utf8 (encode encodeChar encodeString)

section Counts

theorem count_from_digits (ds : List Char) (start : Nat) (digits : ∀ c ∈ ds, c.isDigit = true)
    (room : Digits.fold start ds < 0x10000000000000000) : countFrom start ds = .ok (Digits.fold start ds) := by
  induction ds generalizing start with
  | nil => rfl
  | cons c ds ih =>
    rw [List.forall_mem_cons] at digits
    have next : 10 * start + Digits.value c < 0x10000000000000000 := Nat.lt_of_le_of_lt (Digits.le_fold _ ds) room
    rw [countFrom, if_pos digits.1, if_pos next, ih _ digits.2 room]
    rfl

structure Worth (n : UInt64) (ds : List Char) : Prop where
  nonempty : ds ≠ []
  digits : ∀ c ∈ ds, c.isDigit = true
  value : Digits.toNat ds = n.toNat

theorem worth_read {n : UInt64} {ds : List Char} (worth : Worth n ds) : readCount ds = .ok n := by
  obtain ⟨nonempty, digits, value⟩ := worth
  have counted := count_from_digits ds 0 digits (by rw [← Digits.toNat, value]; exact n.toNat_lt)
  obtain ⟨c, rest, rfl⟩ := List.exists_cons_of_ne_nil nonempty
  have unsigned : c ≠ '+' := (Digits.digit_not_sign c (digits c List.mem_cons_self)).2
  rw [← Digits.toNat, value] at counted
  rw [readCount, counted]
  · exact congrArg Except.ok (UInt64.ofNat_toNat)
  · exact nonempty
  · exact fun same => unsigned (List.cons.inj same).1
  · exact fun _ same => unsigned (List.cons.inj same).1

theorem count_begins {ds : List Char} {n : UInt64} (counts : readCount ds = .ok n) :
    ∃ c rest, ds = c :: rest ∧ c ≠ '-' ∧ c ≠ '=' := by
  cases ds with
  | nil => cases counts
  | cons c rest =>
    refine ⟨c, rest, rfl, ?_, ?_⟩
    all_goals
      rintro rfl
      cases counts

end Counts

structure Command.Clear (c : Command) : Prop where
  standing : c.positional.kind = .path
  named : ∀ a ∈ c.options, a.name ≠ "" ∧ '=' ∉ a.name.toList
  distinct : (c.arguments.map Argument.name).Nodup
  letters : ∀ a ∈ c.options, a.short ≠ some '-' ∧ ∀ b ∈ c.options, a.short = b.short → a.short ≠ none → a = b

namespace Line

def longWord (a : Argument) : Bytes := dash :: dash :: encodeString a.name

inductive Item (c : Command) : String × Value → List Bytes → Prop where
  | standing (p : Bytes) (nonempty : p ≠ []) (undashed : p.head? ≠ some dash) : Item c (c.positional.name, .path p) [p]
  | flag (a : Argument) (listed : a ∈ c.options) (kind : a.kind = .flag) : Item c (a.name, .given) [longWord a]
  | long (a : Argument) (listed : a ∈ c.options) (kind : a.kind = .count) (n : UInt64) (ds : List Char)
      (counts : readCount ds = .ok n) : Item c (a.name, .count n) [longWord a, encode ds]
  | longEquals (a : Argument) (listed : a ∈ c.options) (kind : a.kind = .count) (n : UInt64) (ds : List Char)
      (counts : readCount ds = .ok n) : Item c (a.name, .count n) [longWord a ++ equalsSign :: encode ds]
  | short (a : Argument) (listed : a ∈ c.options) (kind : a.kind = .count) (letter : Char)
      (has : a.short = some letter) (n : UInt64) (ds : List Char) (counts : readCount ds = .ok n) :
      Item c (a.name, .count n) [dash :: encode [letter], encode ds]
  | shortJoined (a : Argument) (listed : a ∈ c.options) (kind : a.kind = .count) (letter : Char)
      (has : a.short = some letter) (n : UInt64) (ds : List Char) (counts : readCount ds = .ok n) :
      Item c (a.name, .count n) [dash :: encode (letter :: ds)]
  | shortEquals (a : Argument) (listed : a ∈ c.options) (kind : a.kind = .count) (letter : Char)
      (has : a.short = some letter) (n : UInt64) (ds : List Char) (counts : readCount ds = .ok n) :
      Item c (a.name, .count n) [dash :: encode (letter :: '=' :: ds)]

inductive Items (c : Command) : Matches → List Bytes → Prop where
  | none : Items c [] []
  | more {g : String × Value} {given : Matches} {words rest : List Bytes} (item : Item c g words)
      (others : Items c given rest) : Items c (g :: given) (words ++ rest)

end Line

section Shapes

theorem encode_char_nonempty (ch : Char) : encodeChar ch ≠ [] := by
  intro none
  have whole : encode [ch] = encode [] := by rw [Utf8.encode_cons, none]; rfl
  exact List.cons_ne_nil ch [] (Utf8.encode_injective whole)

theorem encode_char_undashed {ch : Char} (other : ch ≠ '-') : ∃ b rest, encodeChar ch = b :: rest ∧ b ≠ dash := by
  obtain ⟨b, rest, shape⟩ := List.exists_cons_of_ne_nil (encode_char_nonempty ch)
  have apart := Utf8.encoded_byte_other ch '-' (by decide) other
  exact ⟨b, rest, shape, apart b (shape ▸ List.mem_cons_self)⟩

theorem shape_undashed {w : Bytes} (undashed : w.head? ≠ some dash) : shape w = .plain := by
  cases w with
  | nil => rfl
  | cons b rest =>
    have other : b ≠ 0x2D := fun same => undashed (congrArg some same)
    unfold shape
    split <;> simp_all

theorem shape_short {ch : Char} (other : ch ≠ '-') (cs : List Char) :
    shape (dash :: encode (ch :: cs)) = .short (encode (ch :: cs)) := by
  obtain ⟨b, rest, first, apart⟩ := encode_char_undashed other
  rw [Utf8.encode_cons, first, List.cons_append]
  unfold shape
  split <;> simp_all [dash]

theorem encoded_without_equals {cs : List Char} (free : '=' ∉ cs) : ∀ b ∈ encode cs, decide (b ≠ equalsSign) = true := by
  intro b member
  obtain ⟨ch, among, inside⟩ := List.mem_flatMap.mp member
  have other : ch ≠ '=' := fun same => free (same ▸ among)
  exact decide_eq_true (Utf8.encoded_byte_other ch '=' (by decide) other b inside)

theorem split_long_bare {cs : List Char} (free : '=' ∉ cs) : splitLong (encode cs) = .long (encode cs) none := by
  have dropped : (encode cs ++ []).dropWhile (fun b => decide (b ≠ equalsSign)) = [] :=
    List.dropWhile_append_of_pos (encoded_without_equals free)
  rw [List.append_nil] at dropped
  rw [splitLong, dropped]

theorem split_long_equals {cs : List Char} (free : '=' ∉ cs) (value : Bytes) :
    splitLong (encode cs ++ equalsSign :: value) = .long (encode cs) (some value) := by
  have plain := encoded_without_equals free
  rw [splitLong, List.dropWhile_append_of_pos plain, List.takeWhile_append_of_pos plain]
  simp

theorem shape_long {name : String} (nonempty : name ≠ "") (behind : Bytes) :
    shape (dash :: dash :: (encodeString name ++ behind)) = splitLong (encodeString name ++ behind) := by
  have filled : encodeString name ≠ [] := by
    intro none
    have same : encode name.toList = encode [] := none
    exact nonempty (String.toList_eq_nil_iff.mp (Utf8.encode_injective same))
  obtain ⟨b, rest, first⟩ := List.exists_cons_of_ne_nil filled
  rw [first, List.cons_append]
  unfold shape
  split <;> simp_all [dash]

theorem rest_of_digits {ds : List Char} {n : UInt64} (counts : readCount ds = .ok n) :
    restValue (encode ds) = some (encode ds) := by
  obtain ⟨ch, rest, rfl, _, untied⟩ := count_begins counts
  have apart := Utf8.encoded_byte_other ch '=' (by decide) untied
  obtain ⟨b, bs, first⟩ := List.exists_cons_of_ne_nil (encode_char_nonempty ch)
  have other : b ≠ equalsSign := apart b (first ▸ List.mem_cons_self)
  rw [Utf8.encode_cons, first, List.cons_append, restValue, if_neg other]

theorem rest_of_equals (ds : List Char) : restValue (encode ('=' :: ds)) = some (encode ds) := rfl

theorem digits_undashed {ds : List Char} {n : UInt64} (counts : readCount ds = .ok n) :
    (encode ds).head? ≠ some dash := by
  obtain ⟨ch, rest, rfl, undashed, _⟩ := count_begins counts
  obtain ⟨b, bs, first, apart⟩ := encode_char_undashed undashed
  rw [Utf8.encode_cons, first]
  exact fun same => apart (Option.some.inj same)

end Shapes

namespace Scan

-- A scan at which no argument waits, and what was given by then.
structure Counted (t : Scan) (given : Matches) : Prop where
  leading : t.trailing = false
  settled : t.pending = none
  values : t.values = given
  used : t.used.map Argument.name = given.map Prod.fst

-- What was given so far, the argument that waits with its value included.
structure Has (s : Scan) (given : Matches) : Prop where
  leading : s.trailing = false
  complete : s.awaiting? = none
  settles : ∃ t : Scan, s.settle = (t, .ok ()) ∧ t.Counted given

variable {c : Command} {s t u : Scan} {given : Matches} {a : Argument} {v : Value} {value : Option Bytes}

theorem counted_has (counted : t.Counted given) : t.Has given where
  leading := counted.leading
  complete := by rw [awaiting?, counted.settled]
  settles := ⟨t, by rw [settle, counted.settled], counted⟩

theorem start_counted : Counted start [] := ⟨rfl, rfl, rfl, rfl⟩

theorem not_used (counted : t.Counted given) (fresh : a.name ∉ given.map Prod.fst) : t.hasUsed a = false := by
  rw [← counted.used, List.mem_map] at fresh
  refine Bool.eq_false_iff.mpr fun used => fresh ?_
  obtain ⟨u, member, same⟩ := List.any_eq_true.mp used
  exact ⟨u, member, of_decide_eq_true same⟩

theorem give_fresh (value : Option Bytes) (counted : t.Counted given) (fresh : a.name ∉ given.map Prod.fst)
    (filled : a.takesValue = true → value.isNone = false) (read : a.read (value.getD []) = .ok v) :
    ∃ u, t.give a value = (u, .ok ()) ∧ u.Counted (given ++ [(a.name, v)]) := by
  have taken : (a.takesValue && value.isNone) = false := by
    cases takes : a.takesValue with
    | false => rfl
    | true => rw [filled takes]; rfl
  refine ⟨{ t with used := t.used ++ [a], values := t.values ++ [(a.name, v)] }, ?_, counted.leading, counted.settled, ?_, ?_⟩
  · simp [give, taken, not_used counted fresh, read]
  · rw [counted.values]
  · simp only [List.map_append, counted.used, List.map_cons, List.map_nil]

theorem give_counts (gave : t.give a value = (u, .ok ())) : u.used = t.used ++ [a] := by
  rw [give] at gave
  split at gave
  · cases gave
  · split at gave
    · cases gave
    · simp only at gave
      split at gave
      · cases gave
      · exact (Prod.mk.inj gave).1 ▸ rfl

theorem settled_next (has : s.Has given) (next : Scan → Except Problem Scan) :
    ∃ t, s.settled next = next t ∧ t.Counted given := by
  obtain ⟨t, settles, counted⟩ := has.settles
  exact ⟨t, by rw [settled, settles], counted⟩

theorem take_fresh (value : Option Bytes) (counted : t.Counted given) (fresh : a.name ∉ given.map Prod.fst)
    (filled : a.takesValue = true → value.isNone = false) (read : a.read (value.getD []) = .ok v) :
    ∃ u, take a value t = .ok u ∧ u.Counted (given ++ [(a.name, v)]) := by
  obtain ⟨u, gave, counts⟩ := give_fresh value counted fresh filled read
  exact ⟨u, by rw [take, gave], counts⟩

theorem wait_fresh (counted : t.Counted given) (fresh : a.name ∉ given.map Prod.fst) {bs : Bytes}
    (read : a.read bs = .ok v) : ∃ u, wait a (some bs) t = .ok u ∧ u.Has (given ++ [(a.name, v)]) := by
  obtain ⟨u, gave, counts⟩ := give_fresh (some bs) counted fresh (fun _ => rfl) read
  have clear : { t with pending := none } = t := by rw [← counted.settled]
  refine ⟨_, rfl, counted.leading, rfl, u, ?_, counts⟩
  rw [settle]
  simp only [clear, gave]

theorem positional_free (has : s.Has given) (fresh : c.positional.name ∉ given.map Prod.fst) :
    (s.hasUsed c.positional || s.pending.any fun p => c.isPositional p.argument) = false := by
  obtain ⟨t, settles, counted⟩ := has.settles
  have unused := not_used counted fresh
  cases waiting : s.pending with
  | none =>
    rw [settle, waiting] at settles
    obtain rfl := (Prod.mk.inj settles).1
    rw [unused]
    rfl
  | some p =>
    rw [settle, waiting] at settles
    rw [hasUsed, give_counts settles, List.any_append, Bool.or_eq_false_iff] at unused
    simp only [List.any_cons, List.any_nil, Bool.or_false, decide_eq_false_iff_not] at unused
    simp only [Option.any_some, Bool.or_eq_false_iff, Command.isPositional, decide_eq_false_iff_not]
    exact unused

theorem standing_fresh (has : s.Has given) (fresh : c.positional.name ∉ given.map Prod.fst) {bs : Bytes}
    (read : c.positional.read bs = .ok v) :
    ∃ u, s.standing c bs = .ok u ∧ u.Has (given ++ [(c.positional.name, v)]) := by
  obtain ⟨t, next, counted⟩ := settled_next has (wait c.positional (some bs))
  obtain ⟨u, waits, after⟩ := wait_fresh counted fresh read
  refine ⟨u, ?_, after⟩
  have free := positional_free has fresh
  rw [standing]
  simp only [free, Bool.false_eq_true, if_false, next, waits]

section Words

variable {word w : Bytes}

theorem find_unique {α : Type} {p : α → Bool} {l : List α} {x : α} (member : x ∈ l) (holds : p x = true)
    (unique : ∀ y ∈ l, p y = true → y = x) : l.find? p = some x := by
  cases found : l.find? p with
  | none => exact absurd holds (List.find?_eq_none.mp found x member)
  | some y => exact congrArg some (unique y (List.mem_of_find?_eq_some found) (List.find?_some found))

theorem long_found (clear : c.Clear) (listed : a ∈ c.options) :
    (Utf8.decode? (encodeString a.name)).bind (fun cs => c.options.find? fun o => o.name.toList = cs) = some a := by
  rw [encodeString, Utf8.decode_encode, Option.bind_some]
  apply find_unique listed (decide_eq_true rfl)
  intro o among same
  have options := (List.nodup_cons.mp clear.distinct).2
  exact List.inj_on_of_nodup_map options among listed (String.toList_inj.mp (of_decide_eq_true same))

theorem short_found (clear : c.Clear) (listed : a ∈ c.options) {letter : Char} (has : a.short = some letter) :
    c.options.find? (fun o => o.short = some letter) = some a := by
  apply find_unique listed (decide_eq_true has)
  intro o among same
  have short : o.short = a.short := (of_decide_eq_true same).trans has.symm
  exact (clear.letters o among).2 a listed short (by rw [short, has]; exact Option.some_ne_none letter)

theorem count_takes (kind : a.kind = .count) : a.takesValue = true := by
  rw [Argument.takesValue, kind]
  rfl

theorem step_long (clear : c.Clear) (listed : a ∈ c.options) (has : s.Has given) :
    s.step c (Line.longWord a) = s.long c (encodeString a.name) none := by
  have names := clear.named a listed
  have shaped := shape_long names.1 []
  rw [List.append_nil, encodeString, split_long_bare names.2] at shaped
  rw [step, has.leading, Line.longWord, encodeString, shaped]
  rfl

theorem step_long_equals (clear : c.Clear) (listed : a ∈ c.options) (has : s.Has given) :
    s.step c (Line.longWord a ++ equalsSign :: w) = s.long c (encodeString a.name) (some w) := by
  have names := clear.named a listed
  have shaped := shape_long names.1 (equalsSign :: w)
  rw [encodeString, split_long_equals names.2] at shaped
  rw [step, has.leading, Line.longWord, encodeString, List.cons_append, List.cons_append, shaped]
  rfl

theorem step_short (clear : c.Clear) (listed : a ∈ c.options) {letter : Char} (short : a.short = some letter)
    (kind : a.kind = .count) (has : s.Has given) (cs : List Char) :
    s.step c (dash :: encode (letter :: cs)) = s.option a (restValue (encode cs)) := by
  have undashed : letter ≠ '-' := fun same => (clear.letters a listed).1 (same ▸ short)
  rw [step, has.leading, shape_short undashed]
  simp only [Bool.false_eq_true, if_false, Utf8.decode_prefix_encode]
  rw [Scan.short, short_found clear listed short]
  simp only [count_takes kind, if_true, List.append_nil]

theorem long_option (clear : c.Clear) (listed : a ∈ c.options) (kind : a.kind = .count) :
    s.long c (encodeString a.name) value = s.option a value := by
  rw [long, long_found clear listed]
  simp only [count_takes kind, if_true]

theorem step_standing (has : s.Has given) (undashed : w.head? ≠ some dash) : s.step c w = s.standing c w := by
  rw [step, has.leading, shape_undashed undashed, has.complete]
  rfl

theorem option_tied (has : s.Has given) (fresh : a.name ∉ given.map Prod.fst) (read : a.read w = .ok v) :
    ∃ u, s.option a (some w) = .ok u ∧ u.Has (given ++ [(a.name, v)]) := by
  obtain ⟨t, next, counted⟩ := settled_next has (take a (some w))
  obtain ⟨u, took, after⟩ := take_fresh (some w) counted fresh (fun _ => rfl) read
  exact ⟨u, by rw [option, next, took], counted_has after⟩

theorem option_apart (has : s.Has given) (fresh : a.name ∉ given.map Prod.fst) (read : a.read w = .ok v)
    (undashed : w.head? ≠ some dash) :
    ∃ m u, s.option a none = .ok m ∧ m.step c w = .ok u ∧ u.Has (given ++ [(a.name, v)]) := by
  obtain ⟨t, next, counted⟩ := settled_next has (wait a none)
  obtain ⟨u, waits, after⟩ := wait_fresh counted fresh read
  refine ⟨{ t with pending := some ⟨a, none⟩ }, u, by rw [option, next, wait], ?_, after⟩
  have heading : ({ t with pending := some ⟨a, none⟩ } : Scan).trailing = false := counted.leading
  rw [step, if_neg (by rw [heading]; decide), shape_undashed undashed]
  exact waits

theorem flag_given (clear : c.Clear) (listed : a ∈ c.options) (kind : a.kind = .flag) (has : s.Has given)
    (fresh : a.name ∉ given.map Prod.fst) :
    ∃ u, s.long c (encodeString a.name) none = .ok u ∧ u.Has (given ++ [(a.name, .given)]) := by
  have bare : a.takesValue = false := by rw [Argument.takesValue, kind]; rfl
  have read : a.read [] = .ok .given := by rw [Argument.read, kind]
  obtain ⟨t, next, counted⟩ := settled_next has (flag a)
  obtain ⟨u, took, after⟩ := take_fresh none counted fresh (by rw [bare]; exact nofun) read
  refine ⟨u, ?_, counted_has after⟩
  rw [long, long_found clear listed]
  simp only [bare, Bool.false_eq_true, if_false, next, flag, kind, took]

theorem steps_one (stepped : s.step c w = .ok u) (rest : List Bytes) : s.steps c (w :: rest) = u.steps c rest := by
  rw [steps, stepped]

theorem read_count (kind : a.kind = .count) {ds : List Char} {n : UInt64} (counts : readCount ds = .ok n) :
    a.read (encode ds) = .ok (.count n) := by
  rw [Argument.read, kind]
  simp only [Utf8.decode_encode, counts]

theorem item_given (clear : c.Clear) {g : String × Value} {words : List Bytes} (item : Line.Item c g words)
    (has : s.Has given) (fresh : g.1 ∉ given.map Prod.fst) :
    ∃ u : Scan, u.Has (given ++ [g]) ∧ ∀ rest, s.steps c (words ++ rest) = u.steps c rest := by
  cases item with
  | standing p nonempty undashed =>
    have read : c.positional.read p = .ok (.path p) := by
      rw [Argument.read, clear.standing]
      simp [nonempty]
    obtain ⟨u, stands, after⟩ := standing_fresh has fresh read
    exact ⟨u, after, steps_one ((step_standing has undashed).trans stands)⟩
  | flag a listed kind =>
    obtain ⟨u, flagged, after⟩ := flag_given clear listed kind has fresh
    exact ⟨u, after, steps_one ((step_long clear listed has).trans flagged)⟩
  | long a listed kind n ds counts =>
    obtain ⟨m, u, named, valued, after⟩ := option_apart (c := c) has fresh (read_count kind counts) (digits_undashed counts)
    have first := (step_long clear listed has).trans ((long_option clear listed kind).trans named)
    exact ⟨u, after, fun rest => (steps_one first _).trans (steps_one valued rest)⟩
  | longEquals a listed kind n ds counts =>
    obtain ⟨u, tied, after⟩ := option_tied has fresh (read_count kind counts)
    exact ⟨u, after, steps_one ((step_long_equals clear listed has).trans ((long_option clear listed kind).trans tied))⟩
  | short a listed kind letter short n ds counts =>
    obtain ⟨m, u, named, valued, after⟩ := option_apart (c := c) has fresh (read_count kind counts) (digits_undashed counts)
    have first := (step_short clear listed short kind has []).trans named
    exact ⟨u, after, fun rest => (steps_one first _).trans (steps_one valued rest)⟩
  | shortJoined a listed kind letter short n ds counts =>
    obtain ⟨u, tied, after⟩ := option_tied has fresh (read_count kind counts)
    have first := step_short clear listed short kind has ds
    rw [rest_of_digits counts] at first
    exact ⟨u, after, steps_one (first.trans tied)⟩
  | shortEquals a listed kind letter short n ds counts =>
    obtain ⟨u, tied, after⟩ := option_tied has fresh (read_count kind counts)
    have first := step_short clear listed short kind has ('=' :: ds)
    rw [rest_of_equals] at first
    exact ⟨u, after, steps_one (first.trans tied)⟩

theorem items_given (clear : c.Clear) {more : Matches} {words : List Bytes} (items : Line.Items c more words)
    (has : s.Has given) (once : ((given ++ more).map Prod.fst).Nodup) :
    ∃ t : Scan, s.steps c words = .ok t ∧ t.Counted (given ++ more) := by
  induction items generalizing s given with
  | none =>
    obtain ⟨t, next, counted⟩ := settled_next has .ok
    rw [List.append_nil]
    exact ⟨t, next, counted⟩
  | @more g later words rest item others ih =>
    have apart : given ++ g :: later = given ++ [g] ++ later := by rw [List.append_assoc]; rfl
    rw [apart] at once ⊢
    have fresh : g.1 ∉ given.map Prod.fst := by
      rw [List.map_append, List.map_append] at once
      have front := List.Nodup.of_append_left once
      rw [List.nodup_append] at front
      exact fun member => front.2.2 _ member _ (List.mem_singleton_self _) rfl
    obtain ⟨u, after, passes⟩ := item_given clear item has fresh
    obtain ⟨t, ends, counted⟩ := ih after once
    exact ⟨t, (passes rest).trans ends, counted⟩

end Words

end Scan

end TablePeek.CommandLine
