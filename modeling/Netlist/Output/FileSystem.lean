namespace Netlist

inductive FileFault where
  | notFound
  /-- There is nothing behind the device. -/
  | noDevice
  | notPermitted
  | notDirectory
  | isDirectory
  /-- Nothing more can be written. -/
  | noSpace
  /-- The file is a program that runs. -/
  | busy
  | nameTooLong
  /-- The name has a character that ends names. -/
  | invalidName
deriving DecidableEq

namespace FileFault

/-- The number of a fault that the system reports; an invalid name is never shown to it. -/
def code? : FileFault → Option Nat
  | notFound => some 2
  | noDevice => some 6
  | notPermitted => some 13
  | notDirectory => some 20
  | isDirectory => some 21
  | busy => some 26
  | noSpace => some 28
  | nameTooLong => some 36
  | invalidName => none

def description : FileFault → String
  | notFound => "No such file or directory"
  | noDevice => "No such device or address"
  | notPermitted => "Permission denied"
  | notDirectory => "Not a directory"
  | isDirectory => "Is a directory"
  | busy => "Text file busy"
  | noSpace => "No space left on device"
  | nameTooLong => "File name too long"
  | invalidName => "file name contained an unexpected NUL byte"

def message (f : FileFault) : String :=
  match f.code? with
  | some code => s!"{f.description} (os error {code})"
  | none => f.description

end FileFault

/-- A place in the tree: the names on the way to it from the root, the last one first. -/
abbrev TreePath := List String

/-- What stands for something other than a text. -/
inductive Device where
  /-- Takes all and keeps nothing. -/
  | null
  /-- Takes nothing. -/
  | full
  | stdout
  | stderr
  /-- Cannot be opened. -/
  | closed (fault : FileFault)
deriving DecidableEq

/-- The device at a place. A process finds its streams by their numbers; the input stream takes what is
written to it and shows it to nobody. No terminal is connected. -/
def Device.at? : TreePath → Option Device
  | [name, "dev"] =>
    match name with
    | "null" | "zero" | "random" | "urandom" => some .null
    | "full" => some .full
    | "tty" => some (.closed .noDevice)
    | _ => none
  | [number, "fd", "self", "proc"] =>
    match number with
    | "0" => some .null
    | "1" => some .stdout
    | "2" => some .stderr
    | _ => none
  | ["exe", "self", "proc"] => some (.closed .busy)
  | _ => none

structure FileSystem where
  /-- The folder that relative paths start from. -/
  home : TreePath := ["work", "tmp"]
  folders : List TreePath :=
    [["shm", "dev"], ["pts", "dev"], ["self", "proc"], ["fd", "self", "proc"], ["bin", "usr"],
     ["lib", "usr"], ["lib64", "usr"], ["sbin", "usr"]] ++
    ["boot", "dev", "etc", "home", "media", "mnt", "opt", "proc", "root", "run", "srv", "sys", "tmp",
     "usr", "var"].map fun name => [name]
  /-- Places that stand for another place, which is not itself a link. -/
  links : List (TreePath × TreePath) :=
    [(["bin"], ["bin", "usr"]), (["lib"], ["lib", "usr"]), (["lib64"], ["lib64", "usr"]),
     (["sbin"], ["sbin", "usr"]), (["fd", "dev"], ["fd", "self", "proc"]),
     (["stdin", "dev"], ["0", "fd", "self", "proc"]), (["stdout", "dev"], ["1", "fd", "self", "proc"]),
     (["stderr", "dev"], ["2", "fd", "self", "proc"]), (["root", "self", "proc"], []),
     (["cwd", "self", "proc"], home)]
  /-- Plain files with their texts. -/
  files : List (TreePath × String) := []
deriving DecidableEq

inductive Channel where
  | file (path : TreePath)
  | device (device : Device)
deriving DecidableEq

def Channel.fault? : Channel → Option FileFault
  | .device .full => some .noSpace
  | _ => none

namespace FileSystem

def listing (fs : FileSystem) : List (String × String) :=
  fs.files.filterMap fun (path, text) =>
    match path with
    | name :: folder => if folder = fs.home then some (name, text) else none
    | [] => none

def isFolder (fs : FileSystem) (path : TreePath) : Bool :=
  path.isEmpty || path == fs.home || fs.folders.contains path

def read? (fs : FileSystem) (path : TreePath) : Option String := fs.files.lookup path

def put (fs : FileSystem) (path : TreePath) (text : String) : FileSystem :=
  { fs with files := (path, text) :: fs.files.filter (·.1 != path) }

def append (fs : FileSystem) (path : TreePath) (text : String) : FileSystem :=
  fs.put path ((fs.read? path).getD "" ++ text)

/-- What is open at a place that is no folder, if there is something. -/
def channel? (fs : FileSystem) (path : TreePath) : Option Channel :=
  match Device.at? path, fs.read? path with
  | some device, _ => some (.device device)
  | none, some _ => some (.file path)
  | none, none => none

def showsMachine (folder : TreePath) : Bool :=
  folder.getLast? == some "proc" || folder.getLast? == some "sys"

/-- Whether the last name is too long: names have at most 255 bytes, but no limit where nothing is
kept. -/
def isLong : TreePath → Bool
  | [] => false
  | name :: folder => 255 < name.utf8ByteSize && !showsMachine folder

inductive Place where
  | folder
  /-- No folder; there may be nothing yet. `asFolder` if the path ends as only a folder's does. -/
  | leaf (path : TreePath) (asFolder : Bool)
deriving DecidableEq

/-- The fault of going on from a place that is no folder. -/
def passFault (fs : FileSystem) (path : TreePath) : FileFault :=
  if isLong path then .nameTooLong
  else if (fs.channel? path).isSome then .notDirectory
  else .notFound

def follow (fs : FileSystem) (path : TreePath) : TreePath := (fs.links.lookup path).getD path

/-- The place that the parts of a path lead to from a folder. The empty part and a single dot stay in
a folder, two dots go to the one around it, and the root is around itself. -/
def walk (fs : FileSystem) (folder : TreePath) : List String → Except FileFault Place
  | [] => .ok .folder
  | part :: rest =>
    -- links are followed at once, so two dots after one go to the folder around what it stands for
    let path := fs.follow (part :: folder)
    if part == "" || part == "." then fs.walk folder rest
    else if part == ".." then fs.walk folder.tail rest
    else if rest.all (· == "") then
      .ok (if fs.isFolder path then .folder else .leaf path (!rest.isEmpty))
    else if fs.isFolder path then fs.walk path rest
    else .error (fs.passFault path)

/-- The place that a path leads to. Paths have fewer than 4096 bytes. -/
def resolve (fs : FileSystem) (path : String) : Except FileFault Place :=
  if path.contains (Char.ofNat 0) then .error .invalidName
  else if path.isEmpty then .error .notFound
  else if 4096 ≤ path.utf8ByteSize then .error .nameTooLong
  else fs.walk (if path.startsWith "/" then [] else fs.home) (path.splitToList (· == '/'))

/-- Why no file can be made in a folder, if that is so. -/
def lockFault? (folder : TreePath) : Option FileFault :=
  if folder.getLast? == some "proc" then some .notFound
  else if showsMachine folder || folder == ["pts", "dev"] then some .notPermitted
  else none

/-- Opens a file that is made if it is not there, and emptied if it is. -/
def create (fs : FileSystem) (path : String) : Except FileFault (Channel × FileSystem) :=
  match fs.resolve path with
  | .error fault => .error fault
  | .ok .folder => .error .isDirectory
  | .ok (.leaf place asFolder) =>
    if asFolder then .error .isDirectory
    else if isLong place then .error .nameTooLong
    else
      match Device.at? place, lockFault? place.tail with
      | some (.closed fault), _ => .error fault
      | some device, _ => .ok (.device device, fs)
      | none, some fault => .error fault
      | none, none => .ok (.file place, fs.put place "")

/-- Opens a file that is there, to add to its end. -/
def openExisting (fs : FileSystem) (path : String) : Except FileFault Channel :=
  match fs.resolve path with
  | .error fault => .error fault
  | .ok .folder => .error .isDirectory
  | .ok (.leaf place asFolder) =>
    if isLong place then .error .nameTooLong
    else
      match fs.channel? place with
      | none => .error .notFound
      | some channel =>
        if asFolder then .error .notDirectory
        else
          match channel with
          | .device (.closed fault) => .error fault
          | _ => .ok channel

end FileSystem

end Netlist
