import RazorLayout.Tool.Draw
import RazorLayout.Text.Digit

/-!
# Random templates

Samplers for templates, many of them malformed: unterminated tags and comments, broken braces and
conditions, dangling clauses, stray characters.

Where a part is one of several alternatives, the alternatives are either drawn beforehand and then
one is taken, or one is taken and then drawn; the order of the draws is part of each sampler.
-/

namespace RazorLayout

namespace Sample

section Words

/-- Texts from strings. -/
def words (ws : List String) : List Text :=
  ws.map String.toList

/-- Tag names. -/
def tags : List Text := words
  ["div", "span", "p", "a", "img", "table", "tr", "td", "th", "ul", "ol", "li",
    "form", "input", "button", "select", "option", "textarea", "script", "style",
    "head", "body", "html", "title", "meta", "link", "br", "hr", "h1", "h2", "h3",
    "pre", "code", "section", "header", "footer", "nav", "main", "label",
    "EditForm", "InputText", "Component", "MudButton", "router-view"]

/-- Attribute names. -/
def attributeNames : List Text := words
  ["id", "class", "style", "href", "src", "alt", "title", "name", "value", "type",
    "onclick", "data-x", "aria-label", "role", "disabled", "checked", "hidden",
    "@onclick", "@bind", "@bind-Value", "@ref", "@key", "asp-for", "asp-action"]

/-- Embedded expressions. -/
def expressions : List Text := words
  ["@Model.Name", "@item.Title", "@(x + 1)", "@(Model.Items[0].Name)",
    "@(flag ? \"a\" : \"b\")", "@Items[i]", "@GetLabel(\"x\")", "@DateTime.Now.ToString(\"t\")",
    "@Html.Raw(x)", "@(a > b)", "@user@example.com", "@@escaped"]

/-- Conditions of blocks. -/
def conditions : List Text := words
  ["(x)", "(a > b)", "(s == \"\x7d\")", "(items.Count > 0)", "(var i = 0; i < 3; i++)",
    "(var item in Model)"]

/-- Line directives. -/
def directives : List Text := words
  ["@page \"/counter\"", "@using System.Text", "@inject IFoo Foo", "@model IndexModel",
    "@layout MainLayout", "@namespace App.Pages", "@typeparam TItem",
    "@rendermode InteractiveServer"]

/-- Characters and pairs that scanners trip over. -/
def specials : List Text :=
  [[Char.ofNat 0], ['\t'], ['\r'], ['\r', '\n'], [Char.ofNat 0xA0], [Char.ofNat 0x200B],
    [Char.ofNat 0xFEFF], ['{'], ['}'], ['('], [')'], ['"'], ['\''], ['@'], ['<'], ['>']]

/-- Runs of white space. -/
def gaps : List Text := [[' '], ['\t'], ['\n'], ['\r', '\n'], Text.spaces 4, []]

/-- Letters and digits, one by one. -/
def letters : List Text :=
  ("abcdefghijklmnopqrstuvwxyzABCDEFGHIJKLMNOPQRSTUVWXYZ0123456789".toList).map fun c => [c]

/-- A text between braces with a space on both sides. -/
def braced (inner : Text) : Text :=
  '{' :: ' ' :: inner ++ [' ', '}']

/-- A text between two equal quotes. -/
def enclosed (quote : Char) (inner : Text) : Text :=
  quote :: inner ++ [quote]

end Words

section Leaves

open Sampler

/-- A word of `low` to `high` letters and digits. -/
def word (low high : Int) : Sampler Text := do
  let n ← Sampler.between low high
  pickMany letters n.toNat

/-- A word of up to twenty letters and digits. -/
def anyWord : Sampler Text := word 0 20

/-- White space. -/
def gap : Sampler Text := do
  let n ← Sampler.between 0 4
  pickMany gaps n.toNat

/-- An attribute. -/
def attributeText : Sampler Text := do
  let name ← pick attributeNames
  oneOf [
    pure name,
    do pure (name ++ '=' :: enclosed '"' (← anyWord)),
    do pure (name ++ '=' :: enclosed '\'' (← anyWord)),
    do pure (name ++ '=' :: (← word 1 8)),
    do pure (name ++ '=' :: enclosed '"' (← pick expressions)),
    do pure (name ++ " = ".toList ++ enclosed '"' (← anyWord)),
    do pure (name ++ '=' :: '"' :: (← anyWord)),
    pure (name ++ ['=']),
    do
      let special ← pick specials
      pure (special ++ (← word 1 4))]

/-- An opening tag. -/
def openTag : Sampler Text := do
  let tag ← pick tags
  let n ← Sampler.between 0 4
  let attributes := Text.joinWith [' '] (← repeated attributeText n.toNat)
  let ending ← pick (words [">", " />", "/>", "", " >"])
  pure ('<' :: tag ++ (if attributes.isEmpty then [] else ' ' :: attributes) ++ ending)

/-- A closing tag. -/
def closeTag : Sampler Text :=
  oneOf [
    do pure ("</".toList ++ (← pick tags) ++ ['>']),
    do pure ("</".toList ++ (← pick tags)),
    pure "</>".toList,
    do pure ("</ ".toList ++ (← pick tags) ++ " >".toList)]

/-- Running text. -/
def prose : Sampler Text := do
  let first ← word 1 15
  let expression ← pick expressions
  let space ← gap
  let special ← pick specials
  let n ← Sampler.between 1 4
  pickMany [first, expression, space, special] n.toNat

/-- An element. -/
def element : Sampler Text := do
  let tag ← pick tags
  let short ← word 0 10
  let text ← prose
  let child ← openTag
  let inner ← pick [short, text, child, []]
  let opening ← openTag
  pure (opening ++ inner ++ "</".toList ++ tag ++ ['>'])

/-- A comment. -/
def commentText : Sampler Text :=
  oneOf [
    do pure ("<!-- ".toList ++ (← anyWord) ++ " -->".toList),
    do pure ("<!--".toList ++ (← anyWord)),
    do pure ("@* ".toList ++ (← anyWord) ++ " *@".toList),
    do pure ("@* ".toList ++ (← anyWord))]

/-- A document type declaration. -/
def doctypeText : Sampler Text :=
  pick (words ["<!DOCTYPE html>", "<!doctype html>", "<!DOCTYPE", "<!DOCTYPE html"])

/-- A line directive. -/
def directiveText : Sampler Text := do
  pure ((← pick directives) ++ ['\n'])

/-- A preserved element. -/
def preservedText : Sampler Text := do
  let tag ← pick (words ["script", "style", "pre", "textarea"])
  let name ← anyWord
  let inner ← anyWord
  pure ('<' :: tag ++ ">\n  ".toList ++ name ++ ' ' :: braced inner ++ "\n</".toList ++ tag ++
    ['>'])

end Leaves

section Blocks

open Sampler

/-- A digit. -/
def digit : Sampler Text := do
  let n ← Sampler.between 0 9
  pure (natText n.toNat)

/-- A block whose bodies come from `body`. -/
def blockOf (body : Sampler Text) : Sampler Text := do
  let inner ← body
  let condition ← pick conditions
  let block (keyword : String) : Text := keyword.toList ++ ' ' :: braced inner
  let conditional (keyword : String) : Text :=
    keyword.toList ++ ' ' :: condition ++ ' ' :: braced inner
  oneOf [
    pure (conditional "@if"),
    do pure (conditional "@if" ++ " else ".toList ++ braced (← body)),
    pure (conditional "@if" ++ ' ' :: conditional "else if" ++ ' ' :: block "else"),
    do
      let before ← gap
      let after ← gap
      pure ("@foreach ".toList ++ condition ++ ' ' :: '{' :: before ++ inner ++ after ++ ['}']),
    pure ("@for ".toList ++ condition ++ "\n\x7b\n".toList ++ inner ++ "\n\x7d".toList),
    pure (conditional "@while"),
    pure (block "@do" ++ " while ".toList ++ condition ++ [';']),
    pure (block "@try" ++ ' ' :: block "catch (Exception ex)" ++ ' ' :: block "finally"),
    pure (block "@try" ++ ' ' :: block "catch"),
    pure ("@switch (x) ".toList ++
      braced ("case 1: ".toList ++ inner ++ " break; case ".toList ++ braced "A: true".toList ++
        ": ".toList ++ inner ++ " default: ".toList ++ inner)),
    pure (block "@using (var s = Open())"),
    pure (block "@lock (sync)"),
    pure (block "@section Scripts"),
    do pure ('@' :: braced ("var x = ".toList ++ (← digit) ++ [';'])),
    do pure ("@code ".toList ++ braced ("private int count = ".toList ++ (← digit) ++ [';'])),
    pure ("@if ".toList ++ condition ++ " \x7b ".toList ++ inner),
    pure (block "@if (x"),
    pure (conditional "@if" ++ " else".toList)]

/-- The body of a block where `levels` more levels of blocks may follow. -/
def body : (levels : Nat) → Sampler Text
  | 0 => leaf
  | levels + 1 => do
      if ← chance 400 then leaf else blockOf (body levels)
where
  /-- A body without a block of its own. -/
  leaf : Sampler Text := do
    let text ← prose
    let child ← element
    pick [text, child, []]

/-- The deepest level at which a body may still hold a block. -/
def deepest : Int := 3

/-- The levels of blocks that may follow at a depth. -/
def levelsBelow (depth : Int) : Nat :=
  (deepest + 1 - depth).toNat

/-- The body of a block at a depth. -/
def bodyAt (depth : Int) : Sampler Text :=
  body (levelsBelow depth)

/-- A block at a depth. -/
def blockAt (depth : Int) : Sampler Text :=
  blockOf (bodyAt depth)

end Blocks

section Documents

open Sampler

/-- A piece of a template. -/
def piece : Sampler Text :=
  oneOfShares [
    (15, openTag), (10, closeTag), (15, element), (15, prose), (5, commentText), (20, blockAt 0),
    (5, directiveText), (5, preservedText)]

/-- A piece of a template and the white space behind it. -/
def pieceAndGap : Sampler Text := do
  let text ← piece
  pure (text ++ (← gap))

/-- What `sampler` draws in `n` of a thousand cases, and nothing else. -/
def sometimes (n : Nat) (sampler : Sampler Text) : Sampler Text := do
  if ← chance n then sampler else pure []

/-- A template. -/
def template : Sampler Text := do
  let directive ← sometimes 300 directiveText
  let doctype ← sometimes 300 doctypeText
  let n ← Sampler.between 1 20
  let pieces ← repeated pieceAndGap n.toNat
  pure (directive ++ doctype ++ pieces.flatten)

end Documents

end Sample

end RazorLayout
