import EventTracking.Error

set_option autoImplicit false

namespace EventTracking

inductive DiskNode where
  | file (bytes : ByteArray)
  | directory

abbrev Place := List String

structure Disk where
  nodes : List (Place × DiskNode) := []
  deriving Inhabited

namespace Disk

def node? (d : Disk) (place : Place) : Option DiskNode :=
  if place.all (· == "..") then some .directory
  else (d.nodes.find? fun n => n.1 == place).map (·.2)

def put (d : Disk) (place : Place) (node : DiskNode) : Disk :=
  ⟨(place, node) :: d.nodes.filter fun n => n.1 != place⟩

def step (place : Place) (part : String) : Place :=
  if part == "" || part == "." then place
  else if part == ".." && !place.all (· == "..") then place.dropLast
  else place ++ [part]

def maxNameSize : Nat := 255

def enter (d : Disk) (place : Place) : List String → Except FileFault Place
  | [] => .ok place
  | part :: rest =>
    if maxNameSize < part.utf8ByteSize then .error .nameTooLong
    else match d.node? (step place part) with
      | none => .error .notFound
      | some (.file _) => .error .notADirectory
      | some .directory => d.enter (step place part) rest

def locate (d : Disk) (path : String) : Except FileFault Place := do
  if path.contains '\x00' then .error .invalidName
  let parts := path.splitOn "/"
  let last := parts.getLastD ""
  let directory ← d.enter [] parts.dropLast
  if maxNameSize < last.utf8ByteSize then .error .nameTooLong
  return step directory last

def read (d : Disk) (path : String) : Except FileFault String := do
  match d.node? (← d.locate path) with
  | none => .error .notFound
  | some .directory => .error .isADirectory
  | some (.file bytes) =>
    match String.fromUTF8? bytes with
    | some text => return text
    | none => .error .invalidData

def withoutSlashes (path : String) : String :=
  String.ofList (path.toList.reverse.dropWhile (· == '/')).reverse

def writeBytes (d : Disk) (path : String) (bytes : ByteArray) : Except FileFault Disk := do
  let place ← d.locate (withoutSlashes path)
  match d.node? place with
  | some .directory => .error .isADirectory
  | _ => if path.endsWith "/" then .error .isADirectory else return d.put place (.file bytes)

def write (d : Disk) (path text : String) : Except FileFault Disk := d.writeBytes path text.toUTF8

def makeAlong (d : Disk) (place : Place) : List String → Disk
  | [] => d
  | part :: rest =>
    let next := step place part
    match d.node? next with
    | none => makeAlong (d.put next .directory) next rest
    | some .directory => makeAlong d next rest
    | some (.file _) => d

def makeDirectory (d : Disk) (path : String) : Disk := d.makeAlong [] (path.splitOn "/")

def remove (d : Disk) (path : String) : Disk :=
  match d.locate path with
  | .ok place => ⟨d.nodes.filter fun n => !place.isPrefixOf n.1⟩
  | .error _ => d

theorem node?_put (d : Disk) {place : Place} (node : DiskNode) (h : place.all (· == "..") = false) :
    (d.put place node).node? place = some node := by
  simp [node?, put, h]

end Disk

end EventTracking
