import TablePeek.Files.Path

set_option autoImplicit false

namespace TablePeek

inductive Format where
  | csv
  | json
  | parquet
deriving DecidableEq, Repr

namespace Format

def name : Format → String
  | .csv => "Csv"
  | .json => "Json"
  | .parquet => "Parquet"

def lowerByte (b : UInt8) : UInt8 := if 0x41 ≤ b ∧ b ≤ 0x5A then b + 0x20 else b

def ofExtension (extension : Name) : Format :=
  let e := extension.map lowerByte
  if e = Utf8.encodeString "csv" then .csv
  else if e = Utf8.encodeString "json" then .json
  else .parquet

-- Whatever is neither of the two texts is taken for Parquet.
def ofPath (p : Path) : Format := (p.extension?.map ofExtension).getD .parquet

end Format

end TablePeek
