import FilterClause.Text.Basic

/-!
# Folders

A folder with its files, and what a path leads to. A path is followed name by name, from the folder
or from the root; it may pass through subfolders, which are there as soon as a file is in them. It
may also leave the folder. Nothing is known there but the folders and the null device that are in
every system; a file made there does not change the folder.
-/

namespace FilterClause

/-- Why a file could not be read or written. -/
inductive FileError where
  | notFound
  | notDirectory
  | isDirectory
  | nameTooLong
  /-- The path holds a NUL. -/
  | nulInPath
  /-- The bytes are no UTF-8 text. -/
  | notText
  /-- Another cause, in the words of the system. -/
  | other (message : Text)
deriving DecidableEq

/-- The error in words. -/
def FileError.message : FileError → Text
  | .notFound => "No such file or directory (os error 2)".toList
  | .notDirectory => "Not a directory (os error 20)".toList
  | .isDirectory => "Is a directory (os error 21)".toList
  | .nameTooLong => "File name too long (os error 36)".toList
  | .nulInPath => "file name contained an unexpected NUL byte".toList
  | .notText => "stream did not contain valid UTF-8".toList
  | .other message => message

/-- The text of bytes in UTF-8. -/
def decodeUtf8 (bytes : ByteArray) : Except FileError Text :=
  match String.fromUTF8? bytes with
  | some s => .ok s.toList
  | none => .error .notText

/-- A text as bytes in UTF-8. -/
def encodeUtf8 (t : Text) : ByteArray := (String.ofList t).toUTF8

/-- Files by their names. The name of a file in a subfolder has slashes. -/
structure Folder where
  files : List (Text × ByteArray)

namespace Folder

/-- The content of a file. -/
def content? (f : Folder) (name : Text) : Option ByteArray := f.files.lookup name

/-- Whether names lead to a subfolder: those of a file start with them and go on. -/
def isFolder (f : Folder) (names : List Text) : Bool :=
  f.files.any fun (file, _) => names.isPrefixOf (Text.split '/' file).dropLast

/-- A place that a path passes through. -/
inductive Place where
  /-- A place in the folder, by the names that lead there. -/
  | inside (names : List Text)
  /-- A place outside the folder, by the names that lead there from the root. -/
  | outside (names : List Text)
deriving DecidableEq

namespace Place

/-- The place that a name leads to. -/
def child (name : Text) : Place → Place
  | .inside names => .inside (names ++ [name])
  | .outside names => .outside (names ++ [name])

/-- The place around a place. The folder lies in `/tmp`, and the root lies in itself. -/
def parent : Place → Place
  | .inside [] => .outside ["tmp".toList]
  | .inside names => .inside names.dropLast
  | .outside names => .outside names.dropLast

end Place

/-- The folders that are in every system, by the names that lead there from the root. -/
def systemFolders : List (List Text) :=
  ["bin", "boot", "dev", "etc", "home", "lib", "media", "mnt", "opt", "proc", "root", "run", "sbin",
    "srv", "sys", "tmp", "usr", "usr/bin", "usr/include", "usr/lib", "usr/local", "usr/sbin",
    "usr/share", "usr/src", "var", "var/cache", "var/lib", "var/log", "var/spool", "var/tmp"].map
    fun path => Text.split '/' path.toList

/-- The device that is always empty and keeps nothing. -/
def nullDevice : List Text := ["dev".toList, "null".toList]

/-- What a path leads to. -/
inductive Target where
  | folder
  | file (name : Text)
  | nullDevice
  /-- Nothing is there, but a file of that name can be made. -/
  | free (name : Text)
  /-- Nothing is there, and a file made there is not in the folder. -/
  | freeOutside
  | error (why : FileError)

/-- What is at a place. Outside the folder only what every system has is known. -/
def target (f : Folder) : Place → Target
  | .inside names =>
    let name := Text.join ['/'] names
    if (f.content? name).isSome then .file name
    else if f.isFolder names then .folder
    else .free name
  | .outside names =>
    if systemFolders.contains names then .folder
    else if names = nullDevice then .nullDevice
    else .freeOutside

/-- Whether a name in a path leads nowhere else. -/
def staysHere (name : Text) : Bool := name.isEmpty || name = ['.']

/-- Follows the names of a path from a folder on. -/
def follow (f : Folder) (here : Place) : List Text → Target
  | [] => .folder
  | name :: rest =>
    if 255 < Text.byteLength name then .error .nameTooLong
    else if staysHere name then follow f here rest
    else if name = ['.', '.'] then follow f here.parent rest
    else
      match f.target (here.child name) with
      | .folder => follow f (here.child name) rest
      | .free free => if rest.isEmpty then .free free else .error .notFound
      | .freeOutside => if rest.isEmpty then .freeOutside else .error .notFound
      | found => if rest.isEmpty then found else .error .notDirectory

/-- The place that a path starts from, and its names. -/
def start (path : Text) : Except FileError (Place × List Text) :=
  if path.contains '\x00' then .error .nulInPath
  else if path.isEmpty then .error .notFound
  else if 4095 < Text.byteLength path then .error .nameTooLong
  else .ok (if path.head? = some '/' then .outside [] else .inside [], Text.split '/' path)

/-- What a path leads to. -/
def resolve (f : Folder) (path : Text) : Target :=
  match start path with
  | .ok (here, names) => f.follow here names
  | .error why => .error why

/-- The names of a path that is written to. With a slash at its end it asks for a folder, so its
last name is not looked up, but the names before it have to lead to a folder. -/
def outputNames (names : List Text) : List Text :=
  if names.getLast? = some [] then (names.reverse.dropWhile List.isEmpty).tail.reverse ++ [['.']]
  else names

/-- What a path leads to that is written to. -/
def resolveOutput (f : Folder) (path : Text) : Target :=
  match start path with
  | .ok (here, names) => f.follow here (outputNames names)
  | .error why => .error why

/-- The bytes of the file that a path leads to. -/
def read (f : Folder) (path : Text) : Except FileError ByteArray :=
  match f.resolve path with
  | .folder => .error .isDirectory
  | .file name =>
    match f.content? name with
    | some bytes => .ok bytes
    | none => .error .notFound
  | .nullDevice => .ok .empty
  | .free _ | .freeOutside => .error .notFound
  | .error why => .error why

/-- The files with the content of one replaced, or with one more. -/
def put (name : Text) (bytes : ByteArray) : List (Text × ByteArray) → List (Text × ByteArray)
  | [] => [(name, bytes)]
  | (n, b) :: rest => if n = name then (name, bytes) :: rest else (n, b) :: put name bytes rest

/-- Writes the file that a path leads to. -/
def write (f : Folder) (path : Text) (bytes : ByteArray) : Except FileError Folder :=
  match f.resolveOutput path with
  | .folder => .error .isDirectory
  | .file name | .free name => .ok ⟨put name bytes f.files⟩
  | .nullDevice | .freeOutside => .ok f
  | .error why => .error why

/-- The files that are new or changed since `before`. -/
def changesSince (before after : Folder) : List (Text × ByteArray) :=
  after.files.filter fun (name, bytes) => before.content? name != some bytes

end Folder

end FilterClause
