-- Files that are expected to hold programs.

namespace ScopedLisp

-- Why the contents of a file are not to be had.
inductive ReadFault
  | missing
  | directory
  -- The path goes on behind a file.
  | notDirectory
  | nameTooLong
  | invalidPath
  | invalidEncoding
  | other (text : String)

def ReadFault.text : ReadFault → String
  | missing => "No such file or directory (os error 2)"
  | directory => "Is a directory (os error 21)"
  | notDirectory => "Not a directory (os error 20)"
  | nameTooLong => "File name too long (os error 36)"
  | invalidPath => "file name contained an unexpected NUL byte"
  | invalidEncoding => "stream did not contain valid UTF-8"
  | other text => text

-- A path, and what is found there.
structure SourceFile where
  path  : String
  bytes : Except ReadFault ByteArray

namespace SourceFile

def decode (bytes : ByteArray) : Except ReadFault String :=
  match String.fromUTF8? bytes with
  | some text => .ok text
  | none => .error .invalidEncoding

-- The text of the file. A path with a NUL is refused, whatever is found.
def source (file : SourceFile) : Except ReadFault String :=
  if file.path.toList.contains '\x00' then .error .invalidPath else file.bytes >>= decode

end SourceFile
end ScopedLisp
