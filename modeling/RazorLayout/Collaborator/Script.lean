import RazorLayout.Collaborator.Basic

/-!
# Scripted collaborators

A script says how a collaborator behaves, call by call; the last step is repeated for ever.  It
stands in for a real formatter where the answers have to be known in advance.
-/

namespace RazorLayout

/-- What a scripted collaborator does with a text. -/
inductive Reply where
  /-- Hands the text back. -/
  | echo
  /-- Answers with a fixed text. -/
  | fixed (output : Text)
  /-- Puts something around the text. -/
  | wrap (before after : Text)
  /-- Puts the indentation that was asked for in front of the text. -/
  | sized
  /-- Answers nothing. -/
  | silent
  /-- Fails. -/
  | fail (fault : Fault)
  deriving DecidableEq, Repr

/-- One step of a script: a reply, and the error that a code collaborator reports with it. -/
structure ScriptStep where
  reply : Reply
  error : Option Text := none
  deriving DecidableEq, Repr

namespace Reply

/-- The answer to a text at an indentation. -/
def answer (text : Text) (size : Nat) : Reply → Except Fault (Option Text)
  | echo => .ok (some text)
  | fixed output => .ok (some output)
  | wrap before after => .ok (some (before ++ text ++ after))
  | sized => .ok (some (natText size ++ ':' :: text))
  | silent => .ok none
  | fail fault => .error fault

end Reply

/-- The step of a call; the last one is repeated. -/
def scriptStep : List ScriptStep → Nat → ScriptStep
  | [], _ => ⟨.silent, none⟩
  | [step], _ => step
  | step :: _ :: _, 0 => step
  | _ :: next :: rest, call + 1 => scriptStep (next :: rest) call

/-- A code collaborator that follows a script. -/
def scriptedCode (script : List ScriptStep) (calls : Calls) (text : Text) :
    Except Fault CodeAnswer :=
  let step := scriptStep script calls.code.length
  (step.reply.answer text 0).map fun output => ⟨output, step.error⟩

/-- A style collaborator that follows a script. -/
def scriptedStyle (script : List ScriptStep) (calls : Calls) (text : Text) (size : Nat) :
    Except Fault (Option Text) :=
  (scriptStep script calls.style.length).reply.answer text size

/-- The collaborators of a code script and a style script, where they are given. -/
def Collaborators.scripted (code style : Option (List ScriptStep)) : Collaborators where
  code := code.map scriptedCode
  style :=
    match style with
    | none => fun _ text _ => .ok (some text)
    | some script => scriptedStyle script

end RazorLayout
