import TablePeek.Proofs.Files
import TablePeek.SampleWriter

set_option autoImplicit false

namespace TablePeek

namespace FileSystem

variable {fs fs' : FileSystem} {p q : Path} {place other : Location} {c d : Content}

structure Holds (fs : FileSystem) (p : Path) (place : Location) (c : Content) : Prop where
  leads : fs.locateNew p = .ok place
  node : fs.node? place = some (.file c)

-- Only places that were free are taken, by directories or files.
structure Extends (fs fs' : FileSystem) : Prop where
  home : fs'.home = fs.home
  nodes : ∀ l node, fs.node? l = some node → fs'.node? l = some node

theorem extends_self (fs : FileSystem) : fs.Extends fs := ⟨rfl, fun _ _ there => there⟩

theorem extends_trans {fs'' : FileSystem} (first : fs.Extends fs') (second : fs'.Extends fs'') : fs.Extends fs'' :=
  ⟨second.home.trans first.home, fun l node there => second.nodes l node (first.nodes l node there)⟩

theorem extends_keeps (more : fs.Extends fs') : fs.Keeps fs' where
  home := more.home
  directories l := more.nodes l .directory
  existing l there := by
    cases found : fs.node? l with
    | none =>
      rw [found] at there
      cases there
    | some node =>
      rw [more.nodes l node found]
      rfl

theorem set_extends (free : fs.node? place = none) (node : Node) : fs.Extends (fs.set place node) where
  home := rfl
  nodes l kept there := by
    have apart : l ≠ place := by
      rintro rfl
      rw [free] at there
      cases there
    rwa [node_set_other node l apart]

theorem make_all_extends (names : List Name) (l : Location) : fs.Extends (fs.makeAll l names).1 := by
  induction names generalizing fs l with
  | nil => exact extends_self fs
  | cons n rest ih =>
    rw [makeAll]
    split
    · exact ih l
    · split
      · exact ih l.tail
      · split
        · exact extends_self fs
        · split
          · exact ih (n :: l)
          · exact extends_self fs
          · rename_i free
            exact extends_trans (set_extends free .directory) (ih (n :: l))

theorem make_directories_extends (fs : FileSystem) (p : Path) : fs.Extends (fs.makeDirectories p).1 := by
  rw [makeDirectories]
  split
  · exact extends_self fs
  · exact make_all_extends p.parts (fs.start p)

theorem holds_kept (keeps : fs.Keeps fs') (holds : fs.Holds p place c) (node : fs'.node? place = some (.file d)) :
    fs'.Holds p place d := by
  obtain ⟨around, n, rfl, located⟩ := locate_new_cases holds.leads
  exact ⟨locate_new_located (located_kept keeps located (by simp [node])), node⟩

theorem holds_extended (more : fs.Extends fs') (holds : fs.Holds p place c) : fs'.Holds p place c :=
  holds_kept (extends_keeps more) holds (more.nodes place _ holds.node)

theorem place_inside (leads : fs.locateNew q = .ok place) : place ≠ [] ∧ fs.node? place ≠ some .directory := by
  obtain ⟨around, n, rfl, located⟩ := locate_new_cases leads
  exact ⟨List.cons_ne_nil n around, located.free⟩

theorem write_holds (leads : fs.locateNew q = .ok place) (d : Content) :
    fs.write q d = .ok (fs.set place (.file d)) ∧ (fs.set place (.file d)).Holds q place d := by
  obtain ⟨inside, free⟩ := place_inside leads
  obtain ⟨around, n, rfl, located⟩ := locate_new_cases leads
  exact ⟨by rw [write, leads]; rfl, locate_new_located (located_set d located), node_set_same _ inside⟩

theorem set_holds (leads : fs.locateNew q = .ok place) (d : Content) (holds : fs.Holds p other c) :
    (fs.set place (.file d)).Holds p other (if other = place then d else c) := by
  obtain ⟨inside, free⟩ := place_inside leads
  apply holds_kept (set_keeps d free) holds
  by_cases same : other = place
  · rw [if_pos same, same, node_set_same _ inside]
  · rw [if_neg same, node_set_other _ _ same, holds.node]

theorem holds_found (holds : fs.Holds p place c) : fs.find p = .ok (.file c) := by
  obtain ⟨around, n, rfl, located⟩ := locate_new_cases holds.leads
  exact find_located located _ holds.node

theorem holds_one (holds : fs.Holds p place c) (other : fs.Holds q place d) : c = d := by
  have same := holds.node.symm.trans other.node
  exact Node.file.inj (Option.some.inj same)

end FileSystem

namespace SampleWriter

theorem make_parent_extends (fs : FileSystem) (p : Path) : fs.Extends (makeParent fs p).1 := by
  rw [makeParent]
  split
  · exact FileSystem.extends_self fs
  · exact FileSystem.make_directories_extends fs _

end SampleWriter

end TablePeek
