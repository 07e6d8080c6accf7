/-!
# Quoting profiles

A profile says which character escapes the next one, which one begins a comment, and which ones
leave a line to the shell although they are no operators. The two stock profiles follow the two
families of command interpreters. `posixLike` decides how a shell is found and fed.
-/

namespace ShellLine

structure Profile where
  escape : Char
  comment : Option Char
  shellOnly : List Char
  posixLike : Bool
deriving DecidableEq, Repr

namespace Profile

def posix : Profile where
  escape := '\\'
  comment := some '#'
  shellOnly := ['!', '\x60', '$', '\x7b', '\x7d', ';']
  posixLike := true

def windows : Profile where
  escape := '^'
  comment := none
  shellOnly := ['!', '%', '+']
  posixLike := false

def stock (onWindows : Bool) : Profile :=
  if onWindows then windows else posix

end Profile

end ShellLine
