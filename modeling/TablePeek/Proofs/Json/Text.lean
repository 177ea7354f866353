import TablePeek.Json.Text
import TablePeek.Proofs.Json.Keys
import TablePeek.Proofs.Number.Digits

set_option autoImplicit false

namespace TablePeek.Json

theorem string_from_plain (read : List Char) (c : Char) (rest : List Char) (quote : c ≠ '"')
    (backslash : c ≠ '\\') (printable : ¬ c.toNat < 0x20) :
    stringFrom read (c :: rest) = stringFrom (c :: read) rest := by
  rw [stringFrom.eq_def]
  split
  · rename_i same
    cases same
  · rename_i same
    exact absurd (List.cons.inj same).1 quote
  · rename_i same
    exact absurd (List.cons.inj same).1 backslash
  · rename_i same
    obtain ⟨rfl, rfl⟩ := List.cons.inj same
    rw [if_neg printable]

theorem string_from_escape (read cs : List Char) (c : Char) (rest : List Char)
    (escaped : escape cs = .ok (c, rest)) :
    stringFrom read ('\\' :: cs) = stringFrom (c :: read) rest := by
  rw [stringFrom]
  split
  · rename_i failed
    cases failed.symm.trans escaped
  · rename_i d left completed
    cases completed.symm.trans escaped
    rfl

theorem escape_control (n : Nat) (control : n < 0x20) (rest : List Char) :
    escape ('u' :: '0' :: '0' :: hexDigit (n / 16) :: hexDigit (n % 16) :: rest) =
      .ok (Char.ofNat n, rest) := by
  have number : ∀ n < 0x20, hexNumber? ['0', '0', hexDigit (n / 16), hexDigit (n % 16)] = some n := by
    decide
  simp only [escape, numbered, hex4, number n control]
  rw [if_neg (by omega), if_neg (by omega)]

theorem string_from_written (read : List Char) (c : Char) (rest : List Char) :
    stringFrom read (escapeChar c ++ rest) = stringFrom (c :: read) rest := by
  by_cases quote : c = '"'
  · subst quote; exact string_from_escape read _ _ rest rfl
  by_cases backslash : c = '\\'
  · subst backslash; exact string_from_escape read _ _ rest rfl
  by_cases backspace : c = '\x08'
  · subst backspace; exact string_from_escape read _ _ rest rfl
  by_cases formFeed : c = '\x0c'
  · subst formFeed; exact string_from_escape read _ _ rest rfl
  by_cases lineFeed : c = '\n'
  · subst lineFeed; exact string_from_escape read _ _ rest rfl
  by_cases carriageReturn : c = '\r'
  · subst carriageReturn; exact string_from_escape read _ _ rest rfl
  by_cases tab : c = '\t'
  · subst tab; exact string_from_escape read _ _ rest rfl
  rw [escapeChar, if_neg quote, if_neg backslash, if_neg backspace, if_neg formFeed, if_neg lineFeed,
    if_neg carriageReturn, if_neg tab]
  by_cases control : c.toNat < 0x20
  · rw [if_pos control]
    apply string_from_escape read _ c rest
    simpa using escape_control c.toNat control rest
  · rw [if_neg control]
    exact string_from_plain read c rest quote backslash control

theorem string_text (s : String) (rest : List Char) :
    string (s.toList.flatMap escapeChar ++ '"' :: rest) = .ok (s, rest) := by
  have walk : ∀ (cs read : List Char), stringFrom read (cs.flatMap escapeChar ++ '"' :: rest) =
      .ok (String.ofList (read.reverse ++ cs), rest) := by
    intro cs
    induction cs with
    | nil => intro read; simp [stringFrom]
    | cons c cs ih =>
      intro read
      rw [List.flatMap_cons, List.append_assoc, string_from_written, ih]
      simp
  rw [string, walk]
  simp

def Stops (rest : List Char) : Prop :=
  ∀ c ∈ rest.head?, c.isDigit = false ∧ c ≠ '.' ∧ c ≠ 'e' ∧ c ≠ 'E'

theorem stops_end : Stops [] := by simp [Stops]

theorem stops_at (c : Char) (rest : List Char) (stop : c.isDigit = false ∧ c ≠ '.' ∧ c ≠ 'e' ∧ c ≠ 'E') :
    Stops (c :: rest) := by
  intro d head
  rw [← Option.some.inj head]
  exact stop

theorem after_whole_stops (negative : Bool) (whole rest : List Char) (stops : Stops rest) :
    afterWhole negative whole rest = wholeNumber negative whole rest := by
  cases rest with
  | nil => rfl
  | cons c rest =>
    obtain ⟨_, point, small, capital⟩ := stops c rfl
    rw [afterWhole]
    · exact fun _ same => point (List.cons.inj same).1
    · exact fun _ same => small (List.cons.inj same).1
    · exact fun _ same => capital (List.cons.inj same).1

theorem number_text (negative : Bool) (n : Nat) (i : Int) (rest : List Char) (stops : Stops rest)
    (whole : whole? negative n = some i) :
    number negative (Digits.ofNat n ++ rest) = .ok (.integer i, rest) := by
  obtain ⟨front, back⟩ := Digits.take_digits (Digits.ofNat n) rest (Digits.of_nat_digits n) fun c head => (stops c head).1
  rw [number, front, back]
  split
  · rename_i empty
    exact absurd empty (Digits.of_nat_nonempty n)
  · rename_i second more leading
    have zero := Digits.of_nat_leading_zero n _ leading
    rw [zero, Digits.of_nat_zero] at leading
    cases leading
  · simp only [after_whole_stops negative _ rest stops, wholeNumber, Digits.of_nat_value, whole]

inductive Written : Nat → Value → Prop where
  | null (depth : Nat) : Written depth .null
  | bool (depth : Nat) (b : Bool) : Written depth (.bool b)
  | integer (depth : Nat) (i : Int) (low : -0x8000000000000000 ≤ i) (high : i < 0x10000000000000000) :
      Written depth (.integer i)
  | string (depth : Nat) (s : String) : Written depth (.string s)
  | array (depth : Nat) (items : List Value) (each : ∀ v ∈ items, Written depth v) :
      Written (depth + 1) (.array items)
  | object (depth : Nat) (members : List (String × Value)) (distinct : (members.map Prod.fst).Nodup)
      (each : ∀ m ∈ members, Written depth m.2) : Written (depth + 1) (.object members)

theorem skip_space_at (c : Char) (rest : List Char) (solid : isSpace c = false) :
    skipSpace (c :: rest) = c :: rest := by
  simp [skipSpace, solid]

theorem digit_solid (c : Char) (digit : c.isDigit = true) :
    isSpace c = false ∧ c ≠ ']' ∧ c ≠ '\x7d' := by
  have other : ∀ d : Char, d.isDigit = false → c ≠ d := by
    intro d notDigit same
    rw [same, notDigit] at digit
    cases digit
  refine ⟨?_, other _ rfl, other _ rfl⟩
  simp only [isSpace, other ' ' rfl, other '\n' rfl, other '\t' rfl, other '\r' rfl, decide_false, Bool.or_self]

theorem text_head (depth : Nat) (v : Value) (written : Written depth v) :
    ∃ c rest, v.toText = c :: rest ∧ isSpace c = false ∧ c ≠ ']' ∧ c ≠ '\x7d' := by
  cases written with
  | null => exact ⟨'n', _, rfl, by decide⟩
  | bool _ b => cases b with
    | false => exact ⟨'f', _, rfl, by decide⟩
    | true => exact ⟨'t', _, rfl, by decide⟩
  | integer _ i =>
    rw [Value.toText, Digits.ofInt]
    split
    · exact ⟨'-', _, rfl, by decide⟩
    · obtain ⟨d, ds, digits⟩ := List.exists_cons_of_ne_nil (Digits.of_nat_nonempty i.natAbs)
      exact ⟨d, ds, digits, digit_solid d (Digits.of_nat_digits _ d (by rw [digits]; exact List.mem_cons_self))⟩
  | string _ s => exact ⟨'"', _, rfl, by decide⟩
  | array _ items => cases items with
    | nil => exact ⟨'[', _, rfl, by decide⟩
    | cons v items => exact ⟨'[', _, rfl, by decide⟩
  | object _ members => cases members with
    | nil => exact ⟨'\x7b', _, rfl, by decide⟩
    | cons m members => exact ⟨'\x7b', _, rfl, by decide⟩

namespace Reader

theorem items_last (r : Reader) (found : List Value) (cs left rest : List Char) (v : Value)
    (first : r.read cs = .ok (v, left)) (stop : skipSpace left = ']' :: rest) :
    r.items found cs = .ok (.array (v :: found).reverse, rest) := by
  rw [items.eq_def]
  split
  · rename_i failed
    cases failed.symm.trans first
  · rename_i completed
    cases completed.symm.trans first
    split
    · rename_i next; cases next.symm.trans stop
    · rename_i next; cases next.symm.trans stop; rfl
    · rename_i next; cases next.symm.trans stop
    · rename_i notEnd _; exact absurd stop (notEnd rest)

theorem items_more (r : Reader) (found : List Value) (cs left rest : List Char) (v : Value)
    (first : r.read cs = .ok (v, left)) (stop : skipSpace left = ',' :: rest)
    (goesOn : ∀ more, skipSpace rest ≠ ']' :: more) : r.items found cs = r.items (v :: found) rest := by
  rw [items.eq_def]
  split
  · rename_i failed
    cases failed.symm.trans first
  · rename_i completed
    cases completed.symm.trans first
    split
    · rename_i next; cases next.symm.trans stop
    · rename_i next; cases next.symm.trans stop
    · rename_i next
      cases next.symm.trans stop
      split
      · rename_i trailing; exact absurd trailing (goesOn _)
      · rfl
    · rename_i notMore; exact absurd stop (notMore rest)

theorem members_last (r : Reader) (found : List (String × Value)) (cs behind left rest : List Char)
    (k : String) (v : Value) (name : key cs = .ok (k, behind)) (first : r.read behind = .ok (v, left))
    (stop : skipSpace left = '\x7d' :: rest) :
    r.members found cs = .ok (.object (assign k v found), rest) := by
  rw [members.eq_def]
  split
  · rename_i failed
    cases failed.symm.trans name
  · rename_i named
    cases named.symm.trans name
    split
    · rename_i failed
      cases failed.symm.trans first
    · rename_i completed
      cases completed.symm.trans first
      split
      · rename_i next; cases next.symm.trans stop
      · rename_i next; cases next.symm.trans stop; rfl
      · rename_i next; cases next.symm.trans stop
      · rename_i notEnd _; exact absurd stop (notEnd rest)

theorem members_more (r : Reader) (found : List (String × Value)) (cs behind left rest : List Char)
    (k : String) (v : Value) (name : key cs = .ok (k, behind)) (first : r.read behind = .ok (v, left))
    (stop : skipSpace left = ',' :: rest) (goesOn : ∀ more, skipSpace rest ≠ '\x7d' :: more) :
    r.members found cs = r.members (assign k v found) rest := by
  rw [members.eq_def]
  split
  · rename_i failed
    cases failed.symm.trans name
  · rename_i named
    cases named.symm.trans name
    split
    · rename_i failed
      cases failed.symm.trans first
    · rename_i completed
      cases completed.symm.trans first
      split
      · rename_i next; cases next.symm.trans stop
      · rename_i next; cases next.symm.trans stop
      · rename_i next
        cases next.symm.trans stop
        split
        · rename_i trailing; exact absurd trailing (goesOn _)
        · rfl
      · rename_i notMore; exact absurd stop (notMore rest)

def ReadsText (r : Reader) (v : Value) : Prop :=
  ∀ rest, Stops rest → r.read (v.toText ++ rest) = .ok (v, rest)

theorem items_text (r : Reader) (depth : Nat) (v : Value) (items found : List Value) (rest : List Char)
    (reads : ∀ w ∈ v :: items, r.ReadsText w) (written : ∀ w ∈ items, Written depth w) :
    r.items found (v.toText ++ (Value.itemsText items ++ rest)) =
      .ok (.array (found.reverse ++ v :: items), rest) := by
  have first := reads v List.mem_cons_self
  induction items generalizing v found with
  | nil =>
    have tail : Value.itemsText [] ++ rest = ']' :: rest := rfl
    rw [tail, items_last r found _ _ rest v (first _ (stops_at ']' rest (by decide))) rfl]
    simp
  | cons w items ih =>
    obtain ⟨c, cs, head, solid, notEnd, _⟩ := text_head depth w (written w List.mem_cons_self)
    have tail : Value.itemsText (w :: items) ++ rest =
        ',' :: (w.toText ++ (Value.itemsText items ++ rest)) := by simp [Value.itemsText]
    rw [tail, items_more r found _ _ _ v (first _ (stops_at ',' _ (by decide))) rfl,
      ih w (v :: found) (fun u member => reads u (List.mem_cons_of_mem _ member))
        (fun u member => written u (List.mem_cons_of_mem _ member)) (reads w (by simp))]
    · simp
    · intro more trailing
      rw [head, List.cons_append, skip_space_at c _ solid] at trailing
      exact notEnd (List.cons.inj trailing).1

theorem key_text (k : String) (rest : List Char) : key (quote k ++ ':' :: rest) = .ok (k, rest) := by
  have inside := string_text k (':' :: rest)
  simp only [quote, List.cons_append, List.append_assoc, List.nil_append] at inside ⊢
  rw [key, skip_space_at '"' _ rfl]
  simp only [inside]
  rfl

theorem assign_new (k : String) (v : Value) (found : List (String × Value))
    (absent : k ∉ found.map Prod.fst) : assign k v found = found ++ [(k, v)] := by
  induction found with
  | nil => rfl
  | cons m found ih =>
    have different : m.1 ≠ k := fun same => absent (by simp [same])
    have later : k ∉ found.map Prod.fst := fun member => absent (List.mem_cons_of_mem _ member)
    rw [assign, if_neg different, ih later, List.cons_append]

theorem members_text (r : Reader) (k : String) (v : Value) (members found : List (String × Value))
    (rest : List Char) (reads : ∀ m ∈ (k, v) :: members, r.ReadsText m.2)
    (distinct : ((found ++ (k, v) :: members).map Prod.fst).Nodup) :
    r.members found (quote k ++ ':' :: v.toText ++ (Value.membersText members ++ rest)) =
      .ok (.object (found ++ (k, v) :: members), rest) := by
  have first : r.ReadsText v := reads (k, v) List.mem_cons_self
  have absent : k ∉ found.map Prod.fst := by
    rw [List.map_append, List.map_cons] at distinct
    exact fun member => (List.nodup_append.mp distinct).2.2 k member k List.mem_cons_self rfl
  rw [List.append_assoc, List.cons_append]
  induction members generalizing k v found with
  | nil =>
    have tail : Value.membersText [] ++ rest = '\x7d' :: rest := rfl
    rw [tail, members_last r found _ _ _ rest k v (key_text k _) (first _ (stops_at '\x7d' rest (by decide))) rfl,
      assign_new k v found absent]
  | cons m members ih =>
    obtain ⟨l, w⟩ := m
    have moved : found ++ (k, v) :: (l, w) :: members = (found ++ [(k, v)]) ++ (l, w) :: members := by simp
    have tail : Value.membersText ((l, w) :: members) ++ rest =
        ',' :: (quote l ++ (':' :: (w.toText ++ (Value.membersText members ++ rest)))) := by
      simp [Value.membersText]
    rw [tail, members_more r found _ _ _ _ k v (key_text k _) (first _ (stops_at ',' _ (by decide))) rfl,
      assign_new k v found absent, moved]
    · rw [moved] at distinct
      refine ih l w (found ++ [(k, v)]) (fun m member => reads m (List.mem_cons_of_mem _ member)) distinct
        (reads (l, w) (by simp)) ?_
      rw [List.map_append, List.map_cons] at distinct
      exact fun member => (List.nodup_append.mp distinct).2.2 l member l List.mem_cons_self rfl
    · intro more trailing
      rw [quote, List.cons_append, List.cons_append, skip_space_at '"' _ rfl] at trailing
      exact absurd (List.cons.inj trailing).1 (by decide)

end Reader

theorem read_value_digit (deeper : Option Reader) (c : Char) (rest : List Char) (digit : c.isDigit = true) :
    readValue deeper (c :: rest) = number false (c :: rest) := by
  rw [readValue, skip_space_at c rest (digit_solid c digit).1]
  split
  case h_9 same =>
    obtain ⟨rfl, rfl⟩ := List.cons.inj same
    exact if_pos digit
  all_goals
    rename_i same
    cases same <;> exact absurd digit (by decide)

theorem integer_text (deeper : Option Reader) (i : Int) (rest : List Char) (stops : Stops rest)
    (low : -0x8000000000000000 ≤ i) (high : i < 0x10000000000000000) :
    readValue deeper (Digits.ofInt i ++ rest) = .ok (.integer i, rest) := by
  rw [Digits.ofInt]
  by_cases negative : i < 0
  · have whole : whole? true i.natAbs = some i := by
      rw [whole?, if_pos rfl, if_pos (by omega)]
      congr 1
      omega
    rw [if_pos negative]
    exact number_text true i.natAbs i rest stops whole
  · have whole : whole? false i.natAbs = some i := by
      rw [whole?, if_neg (by decide), if_pos (by omega)]
      congr 1
      omega
    obtain ⟨d, ds, digits⟩ := List.exists_cons_of_ne_nil (Digits.of_nat_nonempty i.natAbs)
    have digit : d.isDigit = true := Digits.of_nat_digits i.natAbs d (by rw [digits]; exact List.mem_cons_self)
    have read := number_text false i.natAbs i rest stops whole
    rw [if_neg negative, digits, List.cons_append, read_value_digit deeper d _ digit]
    rwa [digits, List.cons_append] at read

theorem scalar_text (deeper : Option Reader) (v : Value) (rest : List Char) (stops : Stops rest)
    (written : Written 0 v) : readValue deeper (v.toText ++ rest) = .ok (v, rest) := by
  cases written with
  | null => rfl
  | bool _ b => cases b <;> rfl
  | integer _ i low high =>
    rw [Value.toText]
    exact integer_text deeper i rest stops low high
  | string _ s =>
    have inside := string_text s rest
    rw [Value.toText, quote, List.cons_append, List.cons_append, List.append_assoc, List.singleton_append,
      readValue, skip_space_at '"' _ rfl]
    simp only [inside]
    rfl

theorem array_text (r : Reader) (depth : Nat) (items : List Value) (rest : List Char)
    (reads : ∀ v ∈ items, r.ReadsText v) (written : ∀ v ∈ items, Written depth v) :
    readValue (some r) ((Value.array items).toText ++ rest) = .ok (.array items, rest) := by
  cases items with
  | nil => rfl
  | cons v items =>
    obtain ⟨c, cs, head, solid, notEnd, _⟩ := text_head depth v (written v List.mem_cons_self)
    have inside := r.items_text depth v items [] rest reads
      (fun w member => written w (List.mem_cons_of_mem _ member))
    rw [Value.toText, List.cons_append, List.cons_append, List.append_assoc]
    change r.list _ = _
    rw [head, List.cons_append] at inside ⊢
    rw [Reader.list, skip_space_at c _ solid]
    split
    · rename_i same; cases same
    · rename_i same; exact absurd (List.cons.inj same).1 notEnd
    · exact inside

theorem object_text (r : Reader) (members : List (String × Value)) (rest : List Char)
    (reads : ∀ m ∈ members, r.ReadsText m.2) (distinct : (members.map Prod.fst).Nodup) :
    readValue (some r) ((Value.object members).toText ++ rest) = .ok (.object members, rest) := by
  cases members with
  | nil => rfl
  | cons m members =>
    obtain ⟨k, v⟩ := m
    have inside := r.members_text k v members [] rest reads distinct
    have text : (Value.object ((k, v) :: members)).toText ++ rest =
        '\x7b' :: (quote k ++ ':' :: v.toText ++ (Value.membersText members ++ rest)) := by
      simp [Value.toText]
    rw [text, readValue, skip_space_at '\x7b' _ rfl]
    simp only
    rw [quote, List.cons_append, List.cons_append, List.cons_append] at inside ⊢
    rw [Reader.object, skip_space_at '"' _ rfl]
    exact inside

-- Reading goes down one level with each bracket, as `Written` does.
theorem of_depth_text (depth : Nat) (v : Value) (written : Written depth v) :
    (Reader.ofDepth depth).ReadsText v := by
  intro rest stops
  induction depth generalizing v rest with
  | zero => exact scalar_text none v rest stops written
  | succ depth ih =>
    change readValue (some (.ofDepth depth)) _ = _
    cases written with
    | null => exact scalar_text _ _ rest stops (.null 0)
    | bool _ b => exact scalar_text _ _ rest stops (.bool 0 b)
    | integer _ i low high => exact scalar_text _ _ rest stops (.integer 0 i low high)
    | string _ s => exact scalar_text _ _ rest stops (.string 0 s)
    | array _ items each =>
      exact array_text _ depth items rest (fun v member rest stops => ih v (each v member) rest stops) each
    | object _ members distinct each =>
      exact object_text _ members rest (fun m member rest stops => ih m.2 (each m member) rest stops) distinct

theorem read_text (v : Value) (written : Written maxDepth v) : read v.toText = .ok v := by
  have first := of_depth_text maxDepth v written [] stops_end
  rw [List.append_nil] at first
  rw [read, first]
  rfl

end TablePeek.Json
