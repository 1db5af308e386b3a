/-!
# Command line arguments

The arguments of the command are read from left to right: flags choose what is shown
of a program, the last one of them counts, and at most one argument names a file. The
first argument that asks for help, or that is an error, decides the invocation. Arguments
are Unicode texts: the command is aborted where it comes to one that is not.
-/

set_option autoImplicit false

namespace ProcLang

/-- What is shown of a program that has been read. -/
inductive Display where
  | source
  | tree
  | tally
deriving DecidableEq, Repr

/-- What the arguments ask for. -/
inductive Invocation where
  | help
  | unknownOption (flag : String)
  | surplusFile
  | run (display : Display) (file : Option String)
deriving DecidableEq, Repr

namespace Invocation

/-- Reads the remaining arguments, given the display and the file chosen so far. Every
other argument that begins with a hyphen is an unknown option. -/
def ofArgsFrom (display : Display) (file : Option String) : List String → Invocation
  | [] => .run display file
  | arg :: args =>
      if arg = "--ast" then ofArgsFrom .tree file args
      else if arg = "--stats" then ofArgsFrom .tally file args
      else if arg = "-h" ∨ arg = "--help" then .help
      else if arg.toList.head? = some '-' then .unknownOption arg
      else
        match file with
        | some _ => .surplusFile
        | none => ofArgsFrom display (some arg) args

/-- The invocation that a list of arguments asks for. -/
def ofArgs (args : List String) : Invocation :=
  ofArgsFrom .source none args

end Invocation

end ProcLang
