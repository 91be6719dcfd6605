/-!
# Mustache.Escape

HTML escaping of interpolated text. Text is written in chunks: stretches without markup
characters, and entities, each on its own.
-/

namespace Mustache

inductive Escape where
  /-- Markup characters become entities. -/
  | html
  /-- Text is written unchanged. -/
  | raw
  deriving DecidableEq, Repr, Inhabited

namespace Escape

def entity? (c : Char) : Option String :=
  if c = '&' then some "&amp;"
  else if c = '<' then some "&lt;"
  else if c = '>' then some "&gt;"
  else if c = '"' then some "&quot;"
  else if c = '\'' then some "&#39;"
  else none

/-- A stretch without markup characters as a chunk; the empty stretch is no chunk. -/
def plainChunk (plain : String) : List String :=
  if plain = "" then [] else [plain]

/-- The chunks of a text that follows the stretch `plain`. -/
def htmlChunks (plain : String) : List Char → List String
  | [] => plainChunk plain
  | c :: cs =>
    match entity? c with
    | some entity => plainChunk plain ++ entity :: htmlChunks "" cs
    | none => htmlChunks (plain.push c) cs

def chunks : Escape → String → List String
  | .html, text => htmlChunks "" text.toList
  | .raw, text => [text]

def apply (escape : Escape) (text : String) : String :=
  String.join (escape.chunks text)

/-- The escaping of a tag under an engine-wide setting: a raw engine has raw tags only. -/
def under : Escape → Escape → Escape
  | .raw, _ => .raw
  | .html, tag => tag

end Escape
end Mustache
