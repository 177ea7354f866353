import TablePeek.Width

set_option autoImplicit false

namespace TablePeek.Wrap

abbrev Line := List Char

def cutAt (width : Nat) : Line → Line × Line
  | [] => ([], [])
  | c :: rest =>
    let w := Width.ofText [c]
    if width < w then ([], c :: rest)
    else
      let (front, back) := cutAt (width - w) rest
      (c :: front, back)

def cutSome (width : Nat) (word : Line) : Line × Line :=
  match cutAt width word with
  | ([], c :: rest) => ([c], rest)
  | parts => parts

-- A line this close to the width is finished at once.
def slack : Nat := 2

def settle (width : Nat) (line : Line) : List Line × Line :=
  if width - slack < Width.ofText line then ([line], []) else ([], line)

def fill (width : Nat) : Nat → Line → List Line → List Line
  | 0, _, _ => []
  | _ + 1, line, [] => if line.isEmpty then [] else [line]
  | fuel + 1, line, word :: words =>
    let used := Width.ofText line
    let gap := if line.isEmpty then 0 else 1
    let joined := if line.isEmpty then word else line ++ ' ' :: word
    let room := width - used - gap
    if used + gap + Width.ofText word ≤ width then
      let (done, next) := settle width joined
      done ++ fill width fuel next words
    else if !line.isEmpty && room ≤ slack then line :: fill width fuel [] (word :: words)
    else if width < Width.ofText word then
      if line.isEmpty then
        let (front, back) := cutSome room word
        front :: fill width fuel [] (back :: words)
      else
        let (front, back) := cutAt room word
        (line ++ ' ' :: front) :: fill width fuel [] (back :: words)
    else
      let (done, next) := settle width word
      line :: done ++ fill width fuel next words

def fold (width : Nat) (line : Line) : List Line :=
  if Width.ofText line ≤ width then [line]
  else fill width (4 * line.length + 4) [] (List.splitOn ' ' line)

end TablePeek.Wrap
