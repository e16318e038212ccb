/-!
# Stored documents

A small file system: files with their bytes, and folders with named entries. A path is followed from
a folder on, name by name; `.` stays, `..` goes back to the enclosing folder, and an empty name
counts as `.`. Of what encloses the folder from which a path starts nothing is known. Names and
paths have a greatest length, and no path holds a zero.

Main facts: a path of a single plain name opens the entry of that name (`openPath_single`).
-/

set_option autoImplicit false

namespace PetriQuery

/-- Why a file cannot be opened or read: a description, and the number of the condition if the
system has one for it. -/
structure FileFault where
  description : String
  code? : Option Nat
deriving DecidableEq, Repr

namespace FileFault

/-- A name on the path does not exist. -/
def noSuchFile : FileFault := ⟨"No such file or directory", some 2⟩

/-- A name that others follow is no folder. -/
def notFolder : FileFault := ⟨"Not a directory", some 20⟩

/-- A folder was read like a file. -/
def isFolder : FileFault := ⟨"Is a directory", some 21⟩

/-- A name or a path has too many bytes. -/
def nameTooLong : FileFault := ⟨"File name too long", some 36⟩

/-- A path holds a zero, with which the system ends paths. -/
def zeroInPath : FileFault := ⟨"file name contained an unexpected NUL byte", none⟩

/-- The wording of a fault. -/
def message (fault : FileFault) : String :=
  match fault.code? with
  | some code => s!"{fault.description} (os error {code})"
  | none => fault.description

end FileFault

/-- A file or a folder. -/
inductive Entry where
  | file (content : List UInt8)
  | folder (entries : List (String × Entry))

namespace Entry

/-- How many bytes a name may have. -/
def maxName : Nat := 255

/-- How many bytes a path may have. -/
def maxPath : Nat := 4095

/-- Follows names from an entry on. The folders that enclose it are in `enclosing`, the innermost
first. -/
def follow (enclosing : List Entry) (here : Entry) : List String → Except FileFault Entry
  | [] => .ok here
  | name :: names =>
    match here with
    | .file _ => .error .notFolder
    | .folder entries =>
      if name = "" ∨ name = "." then follow enclosing here names
      else if name = ".." then
        match enclosing with
        -- Outside of the known folders no name is found.
        | [] => follow [] (.folder []) names
        | outer :: others => follow others outer names
      else if maxName < name.utf8ByteSize then .error .nameTooLong
      else
        match entries.lookup name with
        | none => .error .noSuchFile
        | some entry => follow (here :: enclosing) entry names

/-- The names on a path, which a slash separates. -/
def names (path : String) : List String :=
  (path.toList.splitOn '/').map String.ofList

/-- What a path leads to. A path that starts with a slash starts outside of the folder. -/
def openPath (here : Entry) (path : String) : Except FileFault Entry :=
  if path.toList.contains '\x00' then .error .zeroInPath
  else if path = "" then .error .noSuchFile
  else if maxPath < path.utf8ByteSize then .error .nameTooLong
  else if path.toList.head? = some '/' then follow [] (.folder []) (names path)
  else follow [] here (names path)

/-- The bytes of an entry, which a folder does not have. -/
def read : Entry → Except FileFault (List UInt8)
  | .file content => .ok content
  | .folder _ => .error .isFolder

/-- A single name that stands for no folder relation opens the entry of that name. -/
theorem openPath_single {entries : List (String × Entry)} {name : String}
    (plain : names name = [name]) (nonempty : name ≠ "") (notHere : name ≠ ".")
    (notUp : name ≠ "..") (relative : name.toList.head? ≠ some '/')
    (short : name.utf8ByteSize ≤ maxName) (noZero : name.toList.contains '\x00' = false) :
    openPath (.folder entries) name
      = match entries.lookup name with
        | none => .error .noSuchFile
        | some entry => .ok entry := by
  have shortPath : ¬ maxPath < name.utf8ByteSize :=
    Nat.not_lt.2 (Nat.le_trans short (by decide))
  rw [openPath, noZero, if_neg Bool.false_ne_true, if_neg nonempty, if_neg shortPath,
    if_neg relative, plain, follow, if_neg (not_or.2 ⟨nonempty, notHere⟩), if_neg notUp,
    if_neg (Nat.not_lt.2 short)]
  cases entries.lookup name with
  | none => rfl
  | some entry => simp only [follow]

end Entry

end PetriQuery
