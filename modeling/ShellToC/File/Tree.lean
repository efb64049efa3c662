import ShellToC.File.Access
import ShellToC.File.Path

/-
  This file defines file trees: the files and directories
  below a root, and how paths lead through them.

  Key definitions include:
    * `Entry`
    * `FileTree`
    * `FileTree.walk`
    * `FileTree.read`
    * `FileTree.write`
    * `FileTree.access`
-/

namespace ShellToC

------------------------------------------------------------
-- Trees
------------------------------------------------------------

/- What a place in a file tree holds. -/
inductive Entry where
  | file (content : ByteArray)
  | directory

/- Two files are equal if their bytes are. -/
instance : DecidableEq Entry
  | .file a, .file b =>
      decidable_of_iff (a.data = b.data) (by
        rcases a with ⟨a⟩
        rcases b with ⟨b⟩
        simp)
  | .file _, .directory => isFalse (by simp)
  | .directory, .file _ => isFalse (by simp)
  | .directory, .directory => isTrue rfl

/- The steps from the root to a place. -/
abbrev Place :=
  List Text

/- The entries of a file tree and the place of the working directory. -/
structure FileTree where
  cwd : Place
  entries : List (Place × Entry)

namespace FileTree

/- What stands at a place.  The root is always a directory. -/
def lookup
    (tree : FileTree) : Place → Option Entry
  | [] => some .directory
  | place => tree.entries.lookup place

/- Put an entry at a place, instead of what stood there. -/
def insert
    (tree : FileTree)
    (place : Place)
    (entry : Entry) : FileTree :=
  { tree with
    entries := (place, entry) ::
      tree.entries.filter (·.1 != place) }

/- Put directories at a place and above it, where nothing stands. -/
def makeDirs
    (tree : FileTree)
    (place : Place) : FileTree :=
  (List.range (place.length + 1)).foldl (fun tree n =>
    if (tree.lookup (place.take n)).isSome then
      tree
    else
      tree.insert (place.take n) .directory) tree

/- Put an entry at a place, with the directories above it. -/
def add
    (tree : FileTree)
    (place : Place)
    (entry : Entry) : FileTree :=
  (tree.makeDirs place.dropLast).insert place entry

/- A tree with nothing in it but the working directory. -/
def start
    (cwd : Place) : FileTree :=
  makeDirs ⟨cwd, []⟩ cwd

------------------------------------------------------------
-- Walking
------------------------------------------------------------

/- Whether a place is a directory, and why not. -/
def checkDir
    (tree : FileTree)
    (place : Place) : Except FileFault Unit :=
  match tree.lookup place with
  | some .directory => .ok ()
  | some (.file _) => .error .notADirectory
  | none => .error .notFound

/- The place that a part leads to. -/
def step
    (here : Place)
    (part : Text) : Place :=
  if Path.stays part then
    here
  else if Path.goesUp part then
    here.dropLast
  else
    here ++ [part]

/- The place that the parts of a path lead to, through directories. -/
def walk
    (tree : FileTree)
    (here : Place) : List Text → Except FileFault Place
  | [] => .ok here
  | part :: rest =>
      match tree.checkDir here with
      | .error fault => .error fault
      | .ok () => walk tree (step here part) rest

/- The place where a path starts. -/
def origin
    (tree : FileTree)
    (path : Text) : Place :=
  if Path.isAbsolute path then [] else tree.cwd

/- Paths that name nothing, whatever the tree. -/
def checkPath
    (path : Text) : Except FileFault Unit :=
  if path.contains '\x00' then
    .error .nulInPath
  else if path.isEmpty then
    .error .notFound
  else
    .ok ()

------------------------------------------------------------
-- Reading
------------------------------------------------------------

/- The text that bytes in UTF-8 stand for. -/
def decode
    (content : ByteArray) : Except FileFault Text :=
  match String.fromUTF8? content with
  | some text => .ok text.toList
  | none => .error .notText

/- The bytes of a text in UTF-8. -/
def encode
    (text : Text) : ByteArray :=
  (String.ofList text).toUTF8

/- The text at a place. -/
def readAt
    (tree : FileTree)
    (place : Place) : Except FileFault Text :=
  match tree.lookup place with
  | some (.file content) => decode content
  | some .directory => .error .isADirectory
  | none => .error .notFound

/- The text of the file that a path names. -/
def read
    (tree : FileTree)
    (path : Text) : Except FileFault Text :=
  (checkPath path).bind fun _ =>
    (tree.walk (tree.origin path) (Path.parts path)).bind
      tree.readAt

------------------------------------------------------------
-- Writing
------------------------------------------------------------

/-
  The place for a new file of a name.  A slash behind the
  name asks for a directory, which cannot be written.
-/
def placeFor
    (tree : FileTree)
    (here : Place)
    (name : Text)
    (slash : Bool) : Except FileFault Place :=
  (tree.checkDir here).bind fun _ =>
    if slash || tree.lookup (here ++ [name]) = some .directory then
      .error .isADirectory
    else
      .ok (here ++ [name])

/-
  The place that a path to be written leads to.  A path that
  ends with a step to a directory cannot be written.
-/
def target
    (tree : FileTree)
    (path : Text) : Except FileFault Place :=
  let ps := Path.parts path
  let slash := ps.getLast? == some []
  match (ps.reverse.dropWhile List.isEmpty) with
  | [] => .error .isADirectory
  | last :: before =>
      if Path.stays last || Path.goesUp last then
        (tree.walk (tree.origin path) ps).bind fun _ =>
          .error .isADirectory
      else
        (tree.walk (tree.origin path) before.reverse).bind
          fun here => tree.placeFor here last slash

/- Write a text to the file that a path names. -/
def write
    (tree : FileTree)
    (path text : Text) : Except FileFault FileTree :=
  (checkPath path).bind fun _ =>
    (tree.target path).map fun place =>
      tree.insert place (.file (encode text))

------------------------------------------------------------
-- Views
------------------------------------------------------------

/- The path of the working directory. -/
def cwdPath
    (tree : FileTree) : Text :=
  '/' :: Path.ofParts tree.cwd

/- Access to the files of a tree. -/
def access : FileAccess (StateM FileTree) where
  read path := fun tree => (tree.read path, tree)
  write path text := fun tree =>
    match tree.write path text with
    | .ok after => (.ok (), after)
    | .error fault => (.error fault, tree)
  workingDir := fun tree => (some tree.cwdPath, tree)

end FileTree

end ShellToC
