import Csh.Lib.CBuffer

namespace Csh

open Libc

/-!
# Slash commands

What every command of the shell shares: the result it returns to slash and
what the option parser hands it; and the line that the completers edit.
-/

/-- The result of a slash command; every code but `SLASH_SUCCESS` is negative. -/
inductive SlashResult where
  | success
  | eusage
  | einval
  | enospc
  | eio
  | enomem
  deriving Repr, DecidableEq

/-- `result < 0`. -/
def SlashResult.isError (result : SlashResult) : Bool :=
  result != .success

/--
The outcome of `optparse_parse`: the options of the command and the arguments
behind them, or `none` when it rejects the line.
-/
abbrev Parsed (Options : Type) :=
  Option (Options × List CString)

/-- The buffer, the length and the cursor of `struct slash`. -/
structure SlashLine where
  buffer : List Char
  length : Nat
  cursor : Nat
  deriving DecidableEq

/-- The line that is shown. -/
def SlashLine.text (line : SlashLine) : CString :=
  stringAt line.buffer 0

/-- Length and cursor are set to the end of what the buffer holds. -/
def SlashLine.refreshed (buffer : List Char) : SlashLine where
  buffer := buffer
  length := (stringAt buffer 0).length
  cursor := (stringAt buffer 0).length

theorem SlashLine.text_refreshed
    {text behind : List Char}
    (plain : nul ∉ text) :
    (SlashLine.refreshed (text ++ nul :: behind)).text = text :=
  stringAt_zero plain

end Csh
