import Baby.Text.Utf8

/-! Script files: where their octets come from, and how they become source text. -/
namespace Baby

inductive ReadFault where
  | notFound | isDirectory | notDirectory | nameTooLong
  | other (reason : String)
  deriving DecidableEq, Repr

def ReadFault.reason : ReadFault → String
  | notFound => "No such file or directory"
  | isDirectory => "Is a directory"
  | notDirectory => "Not a directory"
  | nameTooLong => "File name too long"
  | other reason => reason

abbrev Files := String → Except ReadFault (List UInt8)

inductive LoadFault where
  | unreadable (fault : ReadFault)
  | undecodable (fault : Text.Utf8.Fault)
  deriving DecidableEq, Repr

namespace Text.Utf8

def Reason.text : Reason → String
  | invalidStart => "invalid start byte"
  | invalidContinuation => "invalid continuation byte"
  | unexpectedEnd => "unexpected end of data"

def hexOctet (b : UInt8) : String :=
  String.ofList ['0', 'x', Nat.digitChar (b.toNat / 16), Nat.digitChar (b.toNat % 16)]

def Fault.message (f : Fault) : String :=
  "'utf-8' codec can't decode " ++
    (if f.first = f.last then "byte " ++ hexOctet f.lead ++ " in position " ++ toString f.first
    else "bytes in position " ++ toString f.first ++ "-" ++ toString f.last) ++
    ": " ++ f.reason.text

end Text.Utf8

def LoadFault.reason : LoadFault → String
  | unreadable f => f.reason
  | undecodable f => f.message

def loadMessage (path : String) (reason : Option String) : String :=
  "Could not load script '" ++ path ++ "'" ++
    match reason with
    | some r => ": " ++ r
    | none => ""

def Files.load (files : Files) (path : String) : Except LoadFault String :=
  match files path with
  | .error f => .error (.unreadable f)
  | .ok raw =>
      match Text.Utf8.decode raw with
      | .error f => .error (.undecodable f)
      | .ok cs => .ok (String.ofList (Text.unixLines cs))

structure FileTree where
  dirs : List String
  files : List (String × List UInt8)
  deriving DecidableEq, Repr

namespace FileTree

def parts (path : String) : List String := path.splitOn "/"

/-- Where an entry of the tree lies: a part that is empty or `.` stays, and `..` goes up. -/
def placeOf (path : String) : List String :=
  (parts path).foldl (fun place name =>
    if name = "" || name = "." then place
    else if name = ".." then place.dropLast
    else place ++ [name]) []

def isDirectory (t : FileTree) (place : List String) : Bool :=
  t.dirs.any (fun d => place.isPrefixOf (placeOf d)) || t.files.any fun f => place.isPrefixOf (placeOf f.1)

def file? (t : FileTree) (place : List String) : Option (List UInt8) :=
  (t.files.filter fun f => placeOf f.1 = place).getLast?.map (·.2)

def follow (t : FileTree) : Option (List String) → List String → Except ReadFault (List UInt8)
  | _, [] => .error .isDirectory
  | place, name :: rest =>
      if name = "" || name = "." then t.follow place rest
      else if name = ".." then
        match place with
        | some (p :: ps) => t.follow (some (p :: ps).dropLast) rest
        | _ => t.follow none rest
      else if 255 < name.utf8ByteSize then .error .nameTooLong
      else
        match place with
        | none => .error .notFound
        | some place =>
            let place := place ++ [name]
            match t.file? place with
            | some raw => if rest.isEmpty then .ok raw else .error .notDirectory
            | none => if t.isDirectory place then t.follow (some place) rest else .error .notFound

def read (t : FileTree) : Files := fun path =>
  if path = "" then .error .notFound
  else if 4096 ≤ path.utf8ByteSize then .error .nameTooLong
  else t.follow (if path.startsWith "/" then none else some []) (parts path)

end FileTree
end Baby
