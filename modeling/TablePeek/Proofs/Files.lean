import TablePeek.Files.FileSystem
import TablePeek.Proofs.Text.Split

set_option autoImplicit false

namespace TablePeek

theorem map_ok {ε α β : Type} {f : α → β} {x : Except ε α} {y : β} (mapped : x.map f = .ok y) :
    ∃ a, x = .ok a ∧ y = f a := by
  cases x with
  | error e => cases mapped
  | ok a => exact ⟨a, rfl, (Except.ok.inj mapped).symm⟩

theorem map_error_ok {ε δ α : Type} {f : ε → δ} {x : Except ε α} {a : α} (mapped : x.mapError f = .ok a) :
    x = .ok a := by
  cases x with
  | error e => cases mapped
  | ok b => exact congrArg Except.ok (Except.ok.inj mapped)

namespace FileSystem

structure Keeps (fs fs' : FileSystem) : Prop where
  home : fs'.home = fs.home
  directories : ∀ l, fs.node? l = some .directory → fs'.node? l = some .directory
  existing : ∀ l, (fs.node? l).isNone = false → (fs'.node? l).isNone = false

variable {fs fs' : FileSystem} {p : Path} {place : Location}

theorem node_set_same (node : Node) (inside : place ≠ []) : (fs.set place node).node? place = some node := by
  cases place with
  | nil => exact absurd rfl inside
  | cons n around => simp [node?, set]

theorem node_set_other (node : Node) (l : Location) (other : l ≠ place) :
    (fs.set place node).node? l = fs.node? l := by
  cases l with
  | nil => rfl
  | cons n around => simp [node?, set, List.lookup_cons, beq_eq_false_iff_ne.mpr other]

theorem set_keeps (c : Content) (free : fs.node? place ≠ some .directory) : fs.Keeps (fs.set place (.file c)) := by
  have inside : place ≠ [] := by
    intro root
    rw [root] at free
    exact free rfl
  refine ⟨rfl, fun l directory => ?_, fun l there => ?_⟩
  · have other : l ≠ place := by
      intro same
      rw [same] at directory
      exact free directory
    rwa [node_set_other _ l other]
  · by_cases same : l = place
    · rw [same, node_set_same _ inside]
      rfl
    · rwa [node_set_other _ l same]

theorem enter_kept (keeps : fs.Keeps fs') (l next : Location) (n : Name) (entered : fs.enter l n = .ok next) :
    fs'.enter l n = .ok next := by
  unfold enter at entered ⊢
  by_cases directory : fs.node? l = some .directory
  · rw [if_neg (by simp [directory])] at entered
    rw [if_neg (by simp [keeps.directories l directory])]
    by_cases still : n.isStill = true
    · rwa [if_pos still] at entered ⊢
    · rw [if_neg still] at entered ⊢
      by_cases up : n = Name.up
      · rwa [if_pos up] at entered ⊢
      · rw [if_neg up] at entered ⊢
        by_cases long : maxName < n.length
        · rw [if_pos long] at entered
          cases entered
        · rw [if_neg long] at entered ⊢
          by_cases missing : (fs.node? (n :: l)).isNone = true
          · rw [if_pos missing] at entered
            cases entered
          · rw [if_neg missing] at entered
            rwa [if_neg (by rw [keeps.existing _ (Bool.not_eq_true _ ▸ missing)]; decide)]
  · rw [if_pos directory] at entered
    cases entered

theorem walk_kept (keeps : fs.Keeps fs') (l last : Location) (names : List Name)
    (walked : fs.walk l names = .ok last) : fs'.walk l names = .ok last := by
  induction names generalizing l with
  | nil => exact walked
  | cons n rest ih =>
    rw [walk] at walked ⊢
    cases entered : fs.enter l n with
    | error e => simp [entered] at walked
    | ok next =>
      simp only [entered] at walked
      simp only [enter_kept keeps l next n entered]
      exact ih next walked

theorem walk_append (l : Location) (front back : List Name) (middle : Location)
    (walked : fs.walk l front = .ok middle) : fs.walk l (front ++ back) = fs.walk middle back := by
  induction front generalizing l with
  | nil =>
    cases walked
    rfl
  | cons n rest ih =>
    rw [walk] at walked
    rw [List.cons_append, walk]
    cases entered : fs.enter l n with
    | error e => simp [entered] at walked
    | ok next =>
      simp only [entered] at walked ⊢
      exact ih next walked

structure Located (fs : FileSystem) (p : Path) (around : Location) (n : Name) : Prop where
  checked : checkPath p = .ok ()
  parts : ∃ front, p.parts = front ++ [n] ∧ fs.walk (fs.start p) front = .ok around
  unfinished : p.getLast? ≠ some Path.slash
  directory : fs.node? around = some .directory
  moves : n.isStill = false
  inward : n ≠ Name.up
  short : ¬ maxName < n.length
  free : fs.node? (n :: around) ≠ some .directory

theorem place_for_cases (l : Location) (n : Name) (placed : fs.placeFor l n = .ok place) :
    place = n :: l ∧ fs.node? l = some .directory ∧ n.isStill = false ∧ n ≠ Name.up ∧ ¬ maxName < n.length ∧
      fs.node? (n :: l) ≠ some .directory := by
  rw [placeFor] at placed
  by_cases directory : fs.node? l = some .directory
  · rw [if_neg (by simp [directory])] at placed
    by_cases named : (n.isStill || n = Name.up) = true
    · rw [if_pos named] at placed
      cases placed
    · rw [if_neg named] at placed
      by_cases long : maxName < n.length
      · rw [if_pos long] at placed
        cases placed
      · rw [if_neg long] at placed
        by_cases taken : fs.node? (n :: l) = some .directory
        · rw [if_pos taken] at placed
          cases placed
        · rw [if_neg taken] at placed
          simp only [Bool.or_eq_true, decide_eq_true_eq, not_or, Bool.not_eq_true] at named
          exact ⟨(Except.ok.inj placed).symm, directory, named.1, named.2, long, taken⟩
  · rw [if_pos directory] at placed
    cases placed

theorem parts_unfinished (nonempty : p ≠ []) (unfinished : p.getLast? ≠ some Path.slash) :
    (p.parts.reverse.dropWhile List.isEmpty).reverse = p.parts := by
  have last := split_on_last p nonempty unfinished
  cases shape : p.parts.reverse with
  | nil => exact absurd (List.reverse_eq_nil_iff.mp shape) (List.splitOn_ne_nil Path.slash p)
  | cons n rest =>
    rw [Path.parts] at shape
    rw [← List.head?_reverse, shape] at last
    cases n with
    | nil => exact absurd rfl last
    | cons b bs =>
      rw [List.dropWhile_cons_of_neg (by simp), ← shape, List.reverse_reverse, Path.parts]

theorem check_path_nonempty (checked : checkPath p = .ok ()) : p ≠ [] := by
  intro empty
  rw [empty] at checked
  cases checked

theorem locate_new_cases (located : fs.locateNew p = .ok place) :
    ∃ around n, place = n :: around ∧ fs.Located p around n := by
  rw [locateNew] at located
  cases checked : checkPath p with
  | error e => simp [checked] at located
  | ok passed =>
    simp only [checked] at located
    split at located
    · cases located
    · rename_i around walked
      split at located
      · cases located
      · rename_i unfinished
        rw [parts_unfinished (check_path_nonempty checked) unfinished] at walked located
        obtain ⟨rfl, directory, moves, inward, short, free⟩ := place_for_cases around _ located
        have nonempty : p.parts ≠ [] := List.splitOn_ne_nil Path.slash p
        have shape : p.parts.dropLast ++ [p.parts.getLastD []] = p.parts := by
          rw [List.getLastD_eq_getLast?, List.getLast?_eq_some_getLast nonempty]
          exact List.dropLast_concat_getLast nonempty
        exact ⟨around, _, rfl, checked, ⟨_, shape.symm, walked⟩, unfinished, directory, moves, inward, short, free⟩

theorem locate_new_located {around : Location} {n : Name} (located : fs.Located p around n) :
    fs.locateNew p = .ok (n :: around) := by
  obtain ⟨front, shape, walked⟩ := located.parts
  have placed : fs.placeFor around n = .ok (n :: around) := by
    rw [placeFor, if_neg (by simp [located.directory]), if_neg (by simp [located.moves, located.inward]),
      if_neg located.short, if_neg located.free]
  rw [locateNew]
  simp only [located.checked]
  rw [parts_unfinished (check_path_nonempty located.checked) located.unfinished, shape, List.dropLast_concat]
  simp only [walked, if_neg located.unfinished]
  simpa using placed

theorem located_kept {around : Location} {n : Name} (keeps : fs.Keeps fs') (located : fs.Located p around n)
    (free : fs'.node? (n :: around) ≠ some .directory) : fs'.Located p around n := by
  obtain ⟨front, shape, walked⟩ := located.parts
  have start : fs'.start p = fs.start p := by rw [start, start, keeps.home]
  exact { located with
    parts := ⟨front, shape, start ▸ walk_kept keeps _ _ front walked⟩
    directory := keeps.directories around located.directory
    free }

theorem find_located {around : Location} {n : Name} (located : fs.Located p around n) (node : Node)
    (there : fs.node? (n :: around) = some node) : fs.find p = .ok node := by
  obtain ⟨front, shape, walked⟩ := located.parts
  have entered : fs.enter around n = .ok (n :: around) := by
    rw [enter, if_neg (by simp [located.directory]), if_neg (by simp [located.moves]), if_neg located.inward,
      if_neg located.short, if_neg (by simp [there])]
  rw [find]
  simp only [located.checked]
  rw [shape, walk_append _ front [n] around walked]
  simp only [walk, entered, there, Option.elim]

theorem located_set {around : Location} {n : Name} (c : Content) (located : fs.Located p around n) :
    (fs.set (n :: around) (.file c)).Located p around n := by
  have there : (fs.set (n :: around) (.file c)).node? (n :: around) = some (.file c) :=
    node_set_same _ (List.cons_ne_nil n around)
  exact located_kept (set_keeps c located.free) located (by simp [there])

theorem write_cases {c : Content} (written : fs.write p c = .ok fs') :
    ∃ around n, fs.Located p around n ∧ fs' = fs.set (n :: around) (.file c) := by
  obtain ⟨place, placed, rfl⟩ := map_ok written
  obtain ⟨around, n, rfl, located⟩ := locate_new_cases placed
  exact ⟨around, n, located, rfl⟩

theorem find_written {c : Content} (written : fs.write p c = .ok fs') : fs'.find p = .ok (.file c) := by
  obtain ⟨around, n, located, rfl⟩ := write_cases written
  exact find_located (located_set c located) _ (node_set_same _ (List.cons_ne_nil n around))

theorem write_again {c : Content} (written : fs.write p c = .ok fs') (d : Content) :
    ∃ fs'', fs'.write p d = .ok fs'' := by
  obtain ⟨around, n, located, rfl⟩ := write_cases written
  exact ⟨_, by rw [write, locate_new_located (located_set c located)]; rfl⟩

end FileSystem

end TablePeek
