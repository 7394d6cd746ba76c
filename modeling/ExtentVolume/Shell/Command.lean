import ExtentVolume.Text.Words

namespace ExtentVolume.Shell

inductive Command where
  | help
  | ls
  | pwd
  | mkdir (name : String)
  | rmdir (name : String)
  | create (name : String)
  | rm (name : String)
  | cd (path : String)
  | read (name : String)
  | write (name text : String)
  | append (name text : String)
  | stat (name : String)
  | df
  | fsck
  | format
  | exit
deriving DecidableEq

namespace Command

/-- The command that the words of a line spell. Words beyond those that it needs are ignored, except
by the two that take a text. -/
def ofWords : List String → Option Command
  | "help" :: _ => some help
  | "ls" :: _ => some ls
  | "pwd" :: _ => some pwd
  | "mkdir" :: name :: _ => some (mkdir name)
  | "rmdir" :: name :: _ => some (rmdir name)
  | "create" :: name :: _ | "touch" :: name :: _ => some (create name)
  | "rm" :: name :: _ => some (rm name)
  | ["cd"] => some (cd "/")
  | "cd" :: path :: _ => some (cd path)
  | "read" :: name :: _ | "cat" :: name :: _ => some (read name)
  | "write" :: name :: word :: rest => some (write name (" ".intercalate (word :: rest)))
  | "append" :: name :: word :: rest => some (append name (" ".intercalate (word :: rest)))
  | "stat" :: name :: _ => some (stat name)
  | "df" :: _ => some df
  | "fsck" :: _ => some fsck
  | "format" :: _ => some format
  | "exit" :: _ | "quit" :: _ => some exit
  | _ => none

def ofLine (line : String) : Option Command := ofWords (Text.words line)

/-- Whether the command changes the volume, which is then written back. -/
def mutates : Command → Bool
  | mkdir _ | rmdir _ | create _ | rm _ | write _ _ | append _ _ => true
  | _ => false

end Command

end ExtentVolume.Shell
