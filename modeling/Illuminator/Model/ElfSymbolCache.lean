import Illuminator.Machine.BoundedReads
import Illuminator.Model.Strings

/-! # The symbols of a file

`Load` reads a whole file into a buffer and walks through its section headers, its symbols and their names. Every read
of the buffer is one that may leave it, and then nothing is said of what follows. Pointers into the buffer are offsets.
`Resolve` looks an address up among the symbols that `std::sort` has left in the order of their values.
-/

namespace Illuminator

open BoundedReads

namespace ElfSymbolCache

/-- A symbol as it is kept. One without a name is not. -/
structure Sym where
  value : UInt64
  name : Bytes
  size : UInt64
  named : name ≠ []
  deriving DecidableEq

/-- `symtab`, `sym_count` and `strtab`, once a section has set them. -/
structure SymbolTable where
  symtab : UInt64
  sym_count : ℕ
  strtab : UInt64
  deriving DecidableEq

def SHT_SYMTAB : ℕ := 2
def SHT_DYNSYM : ℕ := 11
def STT_OBJECT : ℕ := 1
def STT_FUNC : ℕ := 2
def STT_GNU_IFUNC : ℕ := 10

/-- `ELFMAG0` to `ELFMAG3`, and `ELFCLASS64`. -/
def ident : Bytes := [0x7F, 0x45, 0x4C, 0x46, 0x02]

/-- `shdrs[i]`, a header of 64 bytes. -/
def shdr (shdrs : UInt64) (i : ℕ) : UInt64 := shdrs + 64 * .ofNat i

/-- `symtab[i]`, an entry of 24 bytes. -/
def entry (symtab : UInt64) (i : ℕ) : UInt64 := symtab + 24 * .ofNat i

/-- What the program takes from a symbol section: its offset, its size and its link. -/
def readTable (buf : Bytes) (shdrs : UInt64) (i : ℕ) : Option SymbolTable := do
  let sh_offset ← readNumber buf (shdr shdrs i + 24) 8
  let sh_size ← readNumber buf (shdr shdrs i + 32) 8
  let sh_link ← readNumber buf (shdr shdrs i + 40) 4
  let str_offset ← readNumber buf (shdr shdrs sh_link + 24) 8
  return ⟨.ofNat sh_offset, sh_size / 24, .ofNat str_offset⟩

/-- The loop for `.symtab`. It goes through all headers, and the first table found stays. -/
def findSymtab (buf : Bytes) (shdrs : UInt64) : List ℕ → Option SymbolTable → Option (Option SymbolTable)
  | [], found => some found
  | i :: rest, found => do
    let sh_type ← readNumber buf (shdr shdrs i + 4) 4
    if sh_type = SHT_SYMTAB ∧ found = none then
      let table ← readTable buf shdrs i
      findSymtab buf shdrs rest (some table)
    else findSymtab buf shdrs rest found

/-- The loop for `.dynsym`, which ends at the first one. -/
def findDynsym (buf : Bytes) (shdrs : UInt64) : List ℕ → Option (Option SymbolTable)
  | [] => some none
  | i :: rest => do
    let sh_type ← readNumber buf (shdr shdrs i + 4) 4
    if sh_type = SHT_DYNSYM then
      let table ← readTable buf shdrs i
      return some table
    else findDynsym buf shdrs rest

/-- The two loops, the second only when the first finds nothing. -/
def findTable (buf : Bytes) (shdrs : UInt64) (e_shnum : ℕ) : Option (Option SymbolTable) := do
  let symtab ← findSymtab buf shdrs (List.range e_shnum) none
  if symtab = none then findDynsym buf shdrs (List.range e_shnum) else return symtab

/-- One turn of the loop over the symbols: the symbol that it keeps, if any. -/
def readSymbol (buf : Bytes) (table : SymbolTable) (i : ℕ) : Option (Option Sym) := do
  let sym := entry table.symtab i
  let st_info ← readNumber buf (sym + 4) 1
  let info := st_info % 16
  let st_name ← readNumber buf sym 4
  if st_name = 0 then return none
  else if info ≠ STT_FUNC ∧ info ≠ STT_GNU_IFUNC ∧ info ≠ STT_OBJECT then return none
  else
    let st_value ← readNumber buf (sym + 8) 8
    let void ← if st_value = 0 then (readNumber buf (sym + 16) 8).map (· == 0) else pure false
    if void then return none
    else
      let name ← readString buf (table.strtab + .ofNat st_name)
      if named : name = [] then return none
      else
        let st_size ← readNumber buf (sym + 16) 8
        return some ⟨.ofNat st_value, name, .ofNat st_size, named⟩

/-- `Load` up to its sorting, where the file can be opened. Without symbols it returns `false`. -/
def Load (file : Option Bytes) : Option (List Sym) :=
  match file with
  | none => some []
  | some buf =>
    if buf.length < 64 then some []
    else do
      let e_shoff ← readNumber buf 0x28 8
      let e_shentsize ← readNumber buf 0x3A 2
      let e_shnum ← readNumber buf 0x3C 2
      if buf.take 5 ≠ ident ∨ e_shoff = 0 ∨ e_shentsize ≠ 64 then return []
      else
        let found ← findTable buf (.ofNat e_shoff) e_shnum
        match found with
        | none => return []
        | some table =>
          let symbols ← (List.range table.sym_count).mapM (readSymbol buf table)
          return symbols.reduceOption

/-- What `std::sort` may leave. Symbols of one value stand in any order. -/
structure Sorts (symbols symbols_ : List Sym) : Prop where
  perm : symbols_.Perm symbols
  ordered : symbols_.Pairwise fun first second => first.value ≤ second.value

/-- The symbol before the one that `std::upper_bound` finds. -/
def candidate (symbols_ : List Sym) (addr_in_file : UInt64) : Option Sym :=
  (symbols_.takeWhile fun s => !decide (addr_in_file < s.value)).getLast?

def Resolve (symbols_ : List Sym) (addr_in_file : UInt64) : Bytes :=
  match candidate symbols_ addr_in_file with
  | none => []
  | some it => if it.size ≠ 0 ∧ it.value + it.size ≤ addr_in_file then [] else it.name

end ElfSymbolCache

end Illuminator
