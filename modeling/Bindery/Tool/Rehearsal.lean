import Bindery.Files.Access
import Bindery.Tool.Call

/-!
# `Bindery.Tool.Rehearsal` — tools that only pretend

A build can be rehearsed without its tools. Each tool then ends as it is told to, and where one succeeds
that makes a file, a stand-in for that file is written.

**Contents.** `Part`, how a tool is to end; `rehearse`, the runner.
-/

namespace Bindery.Tool

/-- How a tool is to end. -/
inductive Part where
  | ends (exit : Exit)
  | isCancelled
deriving DecidableEq, Repr

/-- The stand-in that a tool writes when it succeeds: where, and what. -/
def standIn? (call : Call) : Option (Path × String) :=
  match call.tool, call.args.getLast? with
  | "prince", some path => some (⟨path⟩, "%PDF")
  | "kindlegen", some path => some (Path.withExtension ⟨path⟩ "mobi", "MOBI")
  | _, _ => none

/-- Runs a call by pretending. -/
def rehearse (parts : String → Part) (call : Call) (files : Files) : Except Fault Exit × Files :=
  match parts call.tool with
  | .isCancelled => (.error (.cancelled call.tool call.program), files)
  | .ends exit =>
    if exit.isSuccess then
      match standIn? call with
      | some (path, text) =>
        match files.write path (.ofText text) with
        | .ok files => (.ok exit, files)
        | .error _ => (.ok exit, files)
      | none => (.ok exit, files)
    else (.ok exit, files)

end Bindery.Tool
