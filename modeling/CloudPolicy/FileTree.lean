import CloudPolicy.Text

/-!
A tree of files as a value. Names and contents are bytes, which need not be a text. A path is
followed piece by piece through directories that have to be there, also where two dots lead back out
of them. Reading, writing and making directories fail as a file system's operations do.
-/

set_option autoImplicit false
set_option relaxedAutoImplicit false

namespace CloudPolicy

/-! ### Paths -/

namespace FilePath

def pieces (path : String) : List String :=
  (Text.splitAt '/' path.toList).map String.ofList

def isIdle (piece : String) : Bool := piece == "" || piece == "."

def join (dir path : String) : String :=
  if dir == "" || dir.toList.getLast? == some '/' then dir ++ path else dir ++ "/" ++ path

private def trimmed (ps : List String) : List String := (ps.reverse.dropWhile isIdle).reverse

def lastName? (path : String) : Option String := (trimmed (pieces path)).getLast?

def parent (path : String) : String :=
  match trimmed (trimmed (pieces path)).dropLast with
  | [] => if path.toList.head? == some '/' then "/" else ""
  | ps => String.intercalate "/" ps

/-- The paths to a place and to those above it, for pieces with the last one first. -/
private def waysUp : List String → List String
  | [] => []
  | p :: ps => if isIdle p then waysUp ps else String.intercalate "/" (p :: ps).reverse :: waysUp ps

/-- The path and the paths that come from it by leaving out last names, the longest first, as far as
they name anything. -/
def ancestors (path : String) : List String := waysUp (pieces path).reverse

end FilePath

/-! ### Bytes -/

/-- A sequence of bytes: a text in UTF-8, or one that is no text. -/
inductive Bytes where
  | text (s : String)
  | foreign (bytes : List UInt8) (invalid : (ByteArray.mk bytes.toArray).validateUTF8 = false)
  deriving DecidableEq

namespace Bytes

instance : Coe String Bytes := ⟨.text⟩

def ofByteArray (b : ByteArray) : Bytes :=
  if invalid : b.validateUTF8 = false then .foreign b.data.toList invalid
  else .text (String.fromUTF8 b (ByteArray.validateUTF8_eq_true_iff.mp
    (Bool.not_eq_false _ ▸ invalid)))

def octets : Bytes → List UInt8
  | .text s => Text.utf8 s
  | .foreign b _ => b

def before (a b : Bytes) : Bool := decide (a.octets < b.octets)

/-- The bounds of the bytes that follow the first byte of a character. -/
private def following (lead : UInt8) : Option (List (UInt8 × UInt8)) :=
  let any : UInt8 × UInt8 := (0x80, 0xBF)
  if lead < 0x80 then some []
  else if lead < 0xC2 then none
  else if lead < 0xE0 then some [any]
  else if lead == 0xE0 then some [(0xA0, 0xBF), any]
  else if lead == 0xED then some [(0x80, 0x9F), any]
  else if lead < 0xF0 then some [any, any]
  else if lead == 0xF0 then some [(0x90, 0xBF), any, any]
  else if lead < 0xF4 then some [any, any, any]
  else if lead == 0xF4 then some [(0x80, 0x8F), any, any]
  else none

/-- A character that is not complete yet: the number that its bytes spell so far, and bounds of
those that lack. -/
private structure Unfinished where
  spelled : Nat := 0
  lacks : List (UInt8 × UInt8) := []

private def begin (b : UInt8) : List Char × Unfinished :=
  match following b with
  | none => (['\uFFFD'], {})
  | some [] => ([Char.ofNat b.toNat], {})
  | some lacks => ([], ⟨b.toNat % (64 >>> lacks.length), lacks⟩)

/-- Goes on with a byte. A character that the byte does not belong to is replaced. -/
private def read (u : Unfinished) (b : UInt8) : List Char × Unfinished :=
  match u.lacks with
  | [] => begin b
  | (least, greatest) :: lacks =>
    let spelled := 64 * u.spelled + b.toNat % 64
    if b < least || greatest < b then ('\uFFFD' :: (begin b).1, (begin b).2)
    else if lacks.isEmpty then ([Char.ofNat spelled], {})
    else ([], ⟨spelled, lacks⟩)

private def readAll (u : Unfinished) : List UInt8 → List Char
  | [] => if u.lacks.isEmpty then [] else ['\uFFFD']
  | b :: bs => (read u b).1 ++ readAll (read u b).2 bs

/-- The bytes as far as they are a text, with a replacement character for what is not. -/
def display : Bytes → String
  | .text s => s
  | .foreign b _ => String.ofList (readAll {} b)

end Bytes

inductive FileEntry where
  | file (content : Bytes)
  | directory
  /-- A file that may be neither read nor written. -/
  | locked
  deriving DecidableEq

inductive FileError where
  | notFound
  | exists
  | notDirectory
  | isDirectory
  /-- A name or a whole path has more bytes than a file system takes. -/
  | nameTooLong
  /-- A path holds the character that ends paths inside a system. -/
  | nulInName
  | permissionDenied
  /-- What was to be read as a text is none. -/
  | invalidText
  deriving DecidableEq, Repr

def FileError.message : FileError → String
  | .notFound => "No such file or directory (os error 2)"
  | .exists => "File exists (os error 17)"
  | .notDirectory => "Not a directory (os error 20)"
  | .isDirectory => "Is a directory (os error 21)"
  | .nameTooLong => "File name too long (os error 36)"
  | .nulInName => "file name contained an unexpected NUL byte"
  | .permissionDenied => "Permission denied (os error 13)"
  | .invalidText => "stream did not contain valid UTF-8"

structure FileTree where
  entries : List (List Bytes × FileEntry)
  deriving DecidableEq

namespace FileTree

def empty : FileTree := ⟨[]⟩

/-- What stands at the end of names; the root is always a directory. -/
def find? (t : FileTree) : List Bytes → Option FileEntry
  | [] => some .directory
  | names => t.entries.lookup names

/-- Puts an entry in the place of what stands at the end of its names. -/
def put (t : FileTree) (names : List Bytes) (e : FileEntry) : FileTree :=
  ⟨(names, e) :: t.entries.filter (·.1 != names)⟩

/-! ### Following paths -/

/-- Where a path leads: into a directory that is there, under a name that need not be there. -/
structure Place where
  names : List Bytes
  /-- Whether the path has the form of a directory's: separators or dots come last. -/
  asDirectory : Bool
  deriving DecidableEq

def nameLimit : Nat := 255

def pathLimit : Nat := 4095

private def follow (t : FileTree) (here : List Bytes) : List String → Except FileError Place
  | [] => .ok ⟨here, true⟩
  | piece :: pieces =>
    if FilePath.isIdle piece then t.follow here pieces
    else if piece == ".." then t.follow here.dropLast pieces
    else if nameLimit < piece.utf8ByteSize then .error .nameTooLong
    else if pieces.all (· == "") then .ok ⟨here ++ [.text piece], !pieces.isEmpty⟩
    else match t.find? (here ++ [.text piece]) with
      | some .directory => t.follow (here ++ [.text piece]) pieces
      | some _ => .error .notDirectory
      | none => .error .notFound

def place (t : FileTree) (path : String) : Except FileError Place :=
  if path.toList.contains '\x00' then .error .nulInName
  else if path == "" then .error .notFound
  else if pathLimit < path.utf8ByteSize then .error .nameTooLong
  else t.follow [] (FilePath.pieces path)

/-! ### Looking -/

def get (t : FileTree) (path : String) : Except FileError FileEntry := do
  let p ← t.place path
  match t.find? p.names with
  | none => .error .notFound
  | some .directory => .ok .directory
  | some e => if p.asDirectory then .error .notDirectory else .ok e

def has (t : FileTree) (path : String) : Bool := (t.get path).toOption.isSome

def isDirectory (t : FileTree) (path : String) : Bool := (t.get path).toOption == some .directory

def read (t : FileTree) (path : String) : Except FileError String := do
  match ← t.get path with
  | .file (.text s) => .ok s
  | .file (.foreign _ _) => .error .invalidText
  | .directory => .error .isDirectory
  | .locked => .error .permissionDenied

/-- The names in the directory at the end of names, in byte order. -/
def inside (t : FileTree) (names : List Bytes) : List Bytes :=
  (t.entries.filterMap fun e => if e.1.dropLast == names then e.1.getLast? else none).mergeSort
    fun a b => !b.before a

/-! ### Changing -/

def write (t : FileTree) (path : String) (content : Bytes) : Except FileError FileTree := do
  let p ← t.place path
  if p.asDirectory || t.find? p.names == some .directory then .error .isDirectory
  else if t.find? p.names == some .locked then .error .permissionDenied
  else .ok (t.put p.names (.file content))

def makeDirectory (t : FileTree) (path : String) : Except FileError FileTree := do
  let p ← t.place path
  if (t.find? p.names).isSome then .error .exists else .ok (t.put p.names .directory)

/-- What becomes of a directory that was to be made: it is there if it was made or was there
before. -/
private def settled (t : FileTree) (path : String) :
    Except FileError FileTree → FileTree × Option FileError
  | .ok t => (t, none)
  | .error e => (t, if t.isDirectory path then none else some e)

/-- Sees to it that the first of the directories is there, each of which is in the next one. Those
behind it are made before it if it cannot be made without them. -/
private def makeFirst (t : FileTree) : List String → FileTree × Option FileError
  | [] => (t, none)
  | path :: above =>
    match t.makeDirectory path with
    | .error .notFound =>
      match t.makeFirst above with
      | (t, none) => t.settled path (t.makeDirectory path)
      | failed => failed
    | made => t.settled path made

/-- Makes a directory and those above it that are missing. What has been made before a failure
stays. -/
def makeDirectories (t : FileTree) (path : String) : FileTree × Option FileError :=
  t.makeFirst (FilePath.ancestors path)

end FileTree

end CloudPolicy
