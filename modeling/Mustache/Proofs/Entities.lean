import Mustache.Proofs.CheckedScan
import Mustache.Proofs.Markup
import Mustache.Proofs.Refusal

/-!
# Mustache.Proofs.Entities

HTML escaping, chunk by chunk. A text is taken apart at its markup characters (`Parts`): the
stretches between them are written as they are and each markup character as its entity, and
nothing is written for an empty stretch. Nothing is lost by that (`flatMap_replacement_inj`). The
writer need not know of characters: `write?` goes through the octets of the text, cuts out the
stretches by their offsets and never cuts a character.
-/

namespace Mustache
namespace Escape

open Text (byteSize isPlain toOctets)

/-! ## Parts of a text -/

/-- What stands for a character in escaped text. -/
def replacement (c : Char) : List Char :=
  match entity? c with
  | some entity => entity.toList
  | none => [c]

/-- A stretch of a text, and each further stretch with the character before it. -/
structure Parts where
  head : List Char
  rest : List (Char × List Char)

namespace Parts

def text (parts : Parts) : List Char :=
  parts.head ++ parts.rest.flatMap fun entry => entry.1 :: entry.2

/-- The stretches hold no markup character, and between two of them stands one. So no stretch
could be longer. -/
structure AtMarkup (parts : Parts) : Prop where
  head : isPlain parts.head = true
  rest : ∀ entry ∈ parts.rest, entry.1 ∈ markup ∧ isPlain entry.2 = true

/-- A stretch and what stands for a character in turn, from a stretch to a stretch. -/
def turns (parts : Parts) : List (List Char) :=
  parts.head :: parts.rest.flatMap fun entry => [replacement entry.1, entry.2]

/-- The turns that are not empty. -/
def chunks (parts : Parts) : List String :=
  (parts.turns.filter (· ≠ [])).map String.ofList

end Parts

theorem mem_markup_of_entity? {c : Char} {entity : String} (h : entity? c = some entity) :
    c ∈ markup := by
  unfold entity? at h
  simp only [markup, List.mem_cons, List.not_mem_nil, or_false]
  grind

theorem entity?_ne_empty {c : Char} {entity : String} (h : entity? c = some entity) :
    entity ≠ "" := by
  rintro rfl
  have := mem_entities h
  revert this
  decide

theorem replacement_of_some {c : Char} {entity : String} (h : entity? c = some entity) :
    replacement c = entity.toList := by
  rw [replacement, h]

theorem replacement_of_none {c : Char} (h : entity? c = none) : replacement c = [c] := by
  rw [replacement, h]

theorem replacement_of_mem_markup : ∀ entry ∈
    [('&', "&amp;"), ('<', "&lt;"), ('>', "&gt;"), ('"', "&quot;"), ('\'', "&#39;")],
    replacement entry.1 = entry.2.toList := by
  decide

theorem replacement_of_not_mem_markup {c : Char} (h : c ∉ markup) : replacement c = [c] := by
  cases hentity : entity? c with
  | none => exact replacement_of_none hentity
  | some entity => exact absurd (mem_markup_of_entity? hentity) h

theorem plainChunk_eq (plain : String) :
    plainChunk plain = ([plain.toList].filter (· ≠ [])).map String.ofList := by
  unfold plainChunk
  split
  · next h => simp [h]
  · next h => simp [h]

theorem flatten_plainChunk (plain : String) :
    ((plainChunk plain).map String.toList).flatten = plain.toList := by
  unfold plainChunk
  split
  · next h => simp [h]
  · simp

/-- The chunks of a text are its parts, but for the empty ones. -/
theorem exists_parts {plain : String} (h : isPlain plain.toList = true) (cs : List Char) :
    ∃ parts : Parts, parts.text = plain.toList ++ cs ∧ parts.AtMarkup ∧
      htmlChunks plain cs = parts.chunks := by
  fun_induction htmlChunks plain cs with
  | case1 plain =>
    exact ⟨⟨plain.toList, []⟩, rfl, ⟨h, by simp⟩, plainChunk_eq plain⟩
  | case2 plain c cs entity hentity ih =>
    obtain ⟨parts, htext, hparts, hchunks⟩ := ih rfl
    refine ⟨⟨plain.toList, (c, parts.head) :: parts.rest⟩, ?_, ⟨h, ?_⟩, ?_⟩
    · rw [String.toList_empty, List.nil_append] at htext
      rw [← htext]
      rfl
    · intro entry hentry
      obtain rfl | hentry := List.mem_cons.1 hentry
      · exact ⟨mem_markup_of_entity? hentity, hparts.head⟩
      · exact hparts.rest entry hentry
    · have hfilled : entity.toList ≠ [] := by
        rw [Ne, String.toList_eq_nil_iff]
        exact entity?_ne_empty hentity
      have hturns : Parts.turns ⟨plain.toList, (c, parts.head) :: parts.rest⟩ =
          [plain.toList] ++ entity.toList :: parts.turns := by
        rw [← replacement_of_some hentity]
        rfl
      rw [Parts.chunks, hturns, List.filter_append, List.map_append, ← plainChunk_eq,
        List.filter_cons_of_pos (by simpa using hfilled), List.map_cons, String.ofList_toList,
        hchunks]
      rfl
  | case3 plain c cs hentity ih =>
    obtain ⟨parts, htext, hparts⟩ := ih (by
      rw [Text.isPlain_iff] at h ⊢
      intro d hd
      rw [String.toList_push, List.mem_append, List.mem_singleton] at hd
      obtain hd | rfl := hd
      · exact h d hd
      · exact not_mem_markup hentity)
    refine ⟨parts, ?_, hparts⟩
    rw [htext, String.toList_push, List.append_assoc, List.singleton_append]

theorem Parts.ne_empty_of_mem {parts : Parts} {chunk : String} (h : chunk ∈ parts.chunks) :
    chunk ≠ "" := by
  obtain ⟨turn, hturn, rfl⟩ := List.mem_map.1 h
  have := (List.mem_filter.1 hturn).2
  simpa using this

theorem flatten_htmlChunks (plain : String) (cs : List Char) :
    ((htmlChunks plain cs).map String.toList).flatten = plain.toList ++ cs.flatMap replacement := by
  fun_induction htmlChunks plain cs with
  | case1 plain => rw [flatten_plainChunk, List.flatMap_nil, List.append_nil]
  | case2 plain c cs entity hentity ih =>
    rw [List.map_append, List.flatten_append, flatten_plainChunk, List.map_cons,
      List.flatten_cons, ih, List.flatMap_cons, replacement_of_some hentity]
    rfl
  | case3 plain c cs hentity ih =>
    rw [ih, String.toList_push, List.append_assoc, List.flatMap_cons,
      replacement_of_none hentity]

theorem toList_apply (text : String) :
    (Escape.html.apply text).toList = text.toList.flatMap replacement := by
  have h := flatten_htmlChunks "" text.toList
  rw [String.toList_empty, List.nil_append] at h
  rw [← h, apply, String.toList_join]
  rfl

/-! ## Nothing is lost -/

theorem cons_ne_entity {c d : Char} {entity : String} (hc : entity? c = none)
    (hd : entity? d = some entity) (cs ds : List Char) : c :: cs ≠ entity.toList ++ ds := by
  have hall : ∀ entity ∈ entities, entity.toList.head? = some '&' := by decide
  obtain ⟨rest, hentity⟩ := List.head?_eq_some_iff.1 (hall entity (mem_entities hd))
  intro h
  rw [hentity, List.cons_append, List.cons.injEq] at h
  rw [h.1] at hc
  exact absurd hc (by decide)

/-- What stands for a character tells which one it is, whatever follows. -/
theorem replacement_append_inj {c d : Char} {cs ds : List Char}
    (h : replacement c ++ cs = replacement d ++ ds) : c = d ∧ cs = ds := by
  cases hc : entity? c with
  | none =>
    rw [replacement_of_none hc, List.singleton_append] at h
    cases hd : entity? d with
    | none =>
      rw [replacement_of_none hd, List.singleton_append] at h
      exact List.cons.inj h
    | some entity' =>
      rw [replacement_of_some hd] at h
      exact absurd h (cons_ne_entity hc hd _ _)
  | some entity =>
    rw [replacement_of_some hc] at h
    cases hd : entity? d with
    | none =>
      rw [replacement_of_none hd, List.singleton_append] at h
      exact absurd h.symm (cons_ne_entity hd hc _ _)
    | some entity' =>
      rw [replacement_of_some hd] at h
      -- no entity is the beginning of another
      have hentities : ∀ entity ∈ entities, ∀ entity' ∈ entities,
          entity.toList <+: entity'.toList → entity = entity' := by decide
      have hsame : entity = entity' := by
        obtain hprefix | hprefix :=
          List.prefix_or_prefix_of_prefix (List.prefix_append _ cs) (h ▸ List.prefix_append _ ds)
        · exact hentities entity (mem_entities hc) entity' (mem_entities hd) hprefix
        · exact (hentities entity' (mem_entities hd) entity (mem_entities hc) hprefix).symm
      subst hsame
      refine ⟨?_, List.append_cancel_left h⟩
      unfold entity? at hc hd
      grind

theorem replacement_ne_nil (c : Char) : replacement c ≠ [] := by
  cases hc : entity? c with
  | none => simp [replacement_of_none hc]
  | some entity => simpa [replacement_of_some hc] using entity?_ne_empty hc

theorem flatMap_replacement_inj {cs ds : List Char}
    (h : cs.flatMap replacement = ds.flatMap replacement) : cs = ds := by
  induction cs generalizing ds with
  | nil =>
    cases ds with
    | nil => rfl
    | cons d ds =>
      rw [List.flatMap_nil, List.flatMap_cons] at h
      exact absurd (List.append_eq_nil_iff.1 h.symm).1 (replacement_ne_nil d)
  | cons c cs ih =>
    cases ds with
    | nil =>
      rw [List.flatMap_nil, List.flatMap_cons] at h
      exact absurd (List.append_eq_nil_iff.1 h).1 (replacement_ne_nil c)
    | cons d ds =>
      rw [List.flatMap_cons, List.flatMap_cons] at h
      obtain ⟨rfl, hrest⟩ := replacement_append_inj h
      rw [ih hrest]

/-! ## Octet by octet -/

def entityAt? (octet : UInt8) : Option String :=
  entity? (Char.ofNat octet.toNat)

/-- The chunk between two offsets of a text, if there is anything. -/
def pending? (text : List Char) (last stop : Nat) : Option (List String) :=
  if last < stop then (Text.slice? last stop text).map fun plain => [String.ofList plain]
  else some []

variable {ω σ : Type}

/-- Writes what is left of a text: the octets from `index` on, and what was read behind `last` and
is not written yet. `none` is a cut through a character. -/
def write? (sink : Sink ω) (text : List Char) :
    List UInt8 → (index last : Nat) → ω → Option (Except SinkError Unit × ω)
  | [], _, last, held => do
    let plain ← pending? text last (byteSize text)
    return sink.offer plain held
  | octet :: octets, index, last, held =>
    match entityAt? octet with
    | none => write? sink text octets (index + 1) last held
    | some entity => do
      let plain ← pending? text last index
      match sink.offer (plain ++ [entity]) held with
      | (.ok (), held) => write? sink text octets (index + 1) (index + 1) held
      | (.error error, held) => return (.error error, held)

theorem toNat_lt_of_entity? {c : Char} {entity : String} (h : entity? c = some entity) :
    c.toNat < 0x80 := by
  have hall : ∀ c ∈ markup, c.toNat < 0x80 := by simp [markup]
  exact hall c (mem_markup_of_entity? h)

/-- A markup character is a single octet. -/
theorem utf8EncodeChar_of_some {c : Char} {entity : String} (h : entity? c = some entity) :
    ∃ octet, String.utf8EncodeChar c = [octet] ∧ entityAt? octet = some entity := by
  have hlow := toNat_lt_of_entity? h
  have hmem : UInt8.ofNat c.toNat ∈ String.utf8EncodeChar c :=
    (Text.mem_utf8EncodeChar_iff hlow).2 rfl
  have hoctet : (UInt8.ofNat c.toNat).toNat = c.toNat := by
    rw [UInt8.toNat_ofNat', Nat.mod_eq_of_lt (Nat.lt_trans hlow (by decide))]
  refine ⟨UInt8.ofNat c.toNat, (Text.utf8EncodeChar_of_mem hmem (by rwa [hoctet])).1, ?_⟩
  rw [entityAt?, hoctet, Char.ofNat_toNat, h]

/-- No octet of another character is taken for one. -/
theorem entityAt?_of_none {c : Char} (h : entity? c = none) :
    ∀ octet ∈ String.utf8EncodeChar c, entityAt? octet = none := by
  intro octet hoctet
  cases hentity : entityAt? octet with
  | none => rfl
  | some entity =>
    exfalso
    have hlow := toNat_lt_of_entity? hentity
    have hvalid : octet.toNat.isValidChar := .inl (Nat.lt_trans octet.toNat_lt (by decide))
    have hsame : (Char.ofNat octet.toNat).toNat = octet.toNat := by
      rw [Char.ofNat, dif_pos hvalid]
      rfl
    rw [hsame] at hlow
    obtain ⟨_, hc⟩ := Text.utf8EncodeChar_of_mem hoctet hlow
    rw [entityAt?, ← hc, Char.ofNat_toNat, h] at hentity
    cases hentity

theorem write?_append (sink : Sink ω) (text : List Char) {octets : List UInt8}
    (h : ∀ octet ∈ octets, entityAt? octet = none) (rest : List UInt8) (index last : Nat)
    (held : ω) :
    write? sink text (octets ++ rest) index last held =
      write? sink text rest (index + octets.length) last held := by
  induction octets generalizing index with
  | nil => rfl
  | cons octet octets ih =>
    rw [List.forall_mem_cons] at h
    rw [List.cons_append, write?, h.1]
    simp only [ih h.2, List.length_cons, Nat.add_assoc, Nat.add_comm 1]

theorem pending?_append (gone : List Char) (plain : String) (rest : List Char) :
    pending? (gone ++ plain.toList ++ rest) (byteSize gone) (byteSize (gone ++ plain.toList)) =
      some (plainChunk plain) := by
  rw [pending?, plainChunk, Text.byteSize_append, Text.slice?_append]
  by_cases h : plain = ""
  · subst h
    simp [byteSize]
  · have hpos : 0 < byteSize plain.toList := by
      rw [Nat.pos_iff_ne_zero, Ne, Text.byteSize_eq_zero_iff, String.toList_eq_nil_iff]
      exact h
    rw [if_pos (Nat.lt_add_of_pos_right hpos), if_neg h, Option.map_some, String.ofList_toList]

/-- Going through the octets comes to the chunks of the characters, and no character is cut. The
induction is on the characters behind the stretch that is not written yet. -/
theorem write?_eq (sink : Sink ω) (gone : List Char) (plain : String) (cs : List Char) (held : ω) :
    write? sink (gone ++ plain.toList ++ cs) (toOctets cs) (byteSize (gone ++ plain.toList))
        (byteSize gone) held =
      some (sink.offer (htmlChunks plain cs) held) := by
  fun_induction htmlChunks plain cs generalizing gone held with
  | case1 plain =>
    have hpending := pending?_append gone plain []
    rw [List.append_nil] at hpending ⊢
    simp only [toOctets, List.flatMap_nil, write?, hpending, Option.bind_eq_bind,
      Option.bind_some]
    rfl
  | case2 plain c cs entity hentity ih =>
    obtain ⟨octet, hencode, hoctet⟩ := utf8EncodeChar_of_some hentity
    have hsize : byteSize (gone ++ plain.toList) + 1 = byteSize (gone ++ plain.toList ++ [c]) := by
      rw [Text.byteSize_append _ [c], byteSize, byteSize, ← String.length_utf8EncodeChar, hencode]
      rfl
    have hrest := fun held => ih (gone ++ plain.toList ++ [c]) held
    rw [Text.toOctets_cons, hencode, List.singleton_append, write?, hoctet]
    simp only [pending?_append, Option.bind_eq_bind, Option.bind_some, hsize]
    have hchunks : plainChunk plain ++ entity :: htmlChunks "" cs =
        (plainChunk plain ++ [entity]) ++ htmlChunks "" cs := by simp
    rw [hchunks, sink.offer_append (plainChunk plain ++ [entity])]
    cases sink.offer (plainChunk plain ++ [entity]) held with
    | mk answer held' =>
      cases answer with
      | ok done => simpa using hrest held'
      | error error => rfl
  | case3 plain c cs hentity ih =>
    have := ih gone held
    rw [String.toList_push] at this
    rw [Text.toOctets_cons, write?_append _ _ (entityAt?_of_none hentity),
      String.length_utf8EncodeChar]
    rw [← List.append_assoc, Text.byteSize_append _ [c]] at this
    simpa [byteSize] using this

end Escape

variable {ω σ : Type}

/-- The chunks are offered to the sink in order, and its answer ends the step. -/
theorem Render.emitAll_eq_offer (sink : Sink ω) (chunks : List String) (held : ω) (store : σ) :
    Render.emitAll sink chunks ⟨held, store⟩ =
      match sink.offer chunks held with
      | (.ok (), held) => (.ok (), ⟨held, store⟩)
      | (.error error, held) => (.error (.failed (.sink error)), ⟨held, store⟩) := by
  induction chunks generalizing held with
  | nil => rfl
  | cons chunk chunks ih =>
    rw [Render.emitAll, Sink.offer]
    cases hwrite : sink.write chunk held with
    | mk answer held' =>
      cases answer with
      | ok done =>
        have hemit : Render.emit sink chunk ⟨held, store⟩ = (.ok (), ⟨held', store⟩) := by
          simp only [Render.emit, hwrite]
        rw [bind_of_ok hemit, ih]
      | error error =>
        have hemit : Render.emit sink chunk ⟨held, store⟩ =
            (.error (.failed (.sink error)), ⟨held', store⟩) := by
          simp only [Render.emit, hwrite]
        rw [bind_of_error hemit]

/-- HTML escaping writes the stretches of a text between its markup characters, each as one chunk,
and for each of these characters the entity that HTML has for it; put together, that is the text
with nothing else changed. Two texts that are escaped to the same are the same. A sink that refuses
a chunk has taken those before it and is offered no more, and its error is the error of the
step. -/
theorem Escape.chunks_html (sink : Sink ω) (text : String) (held : ω) (store : σ) :
    let chunks := Escape.html.chunks text
    (∃ parts : Parts, parts.text = text.toList ∧ parts.AtMarkup ∧ chunks = parts.chunks) ∧
      (∀ chunk ∈ chunks, chunk ≠ "") ∧
      (String.join chunks).toList = text.toList.flatMap replacement ∧
      (∀ entry ∈
          [('&', "&amp;"), ('<', "&lt;"), ('>', "&gt;"), ('"', "&quot;"), ('\'', "&#39;")],
        replacement entry.1 = entry.2.toList) ∧
      (∀ c ∉ ['&', '<', '>', '"', '\''], replacement c = [c]) ∧
      (∀ text', Escape.html.apply (text ++ text') =
        Escape.html.apply text ++ Escape.html.apply text') ∧
      (∀ text', Escape.html.apply text = Escape.html.apply text' → text = text') ∧
      write? sink text.toList (Text.toOctets text.toList) 0 0 held =
        some (sink.offer chunks held) ∧
      match sink.offer chunks held with
      | (.ok (), held') =>
        Render.emitAll sink chunks ⟨held, store⟩ = (.ok (), ⟨held', store⟩) ∧
          sink.noting.offer chunks ⟨held, []⟩ =
            (.ok (), ⟨held', chunks.map fun chunk => (chunk, .ok ())⟩)
      | (.error error, held') =>
        Render.emitAll sink chunks ⟨held, store⟩ =
            (.error (.failed (.sink error)), ⟨held', store⟩) ∧
          ∃ before chunk after, chunks = before ++ chunk :: after ∧
            sink.noting.offer chunks ⟨held, []⟩ =
              (.error error,
                ⟨held', before.map (fun chunk => (chunk, .ok ())) ++ [(chunk, .error error)]⟩) := by
  intro chunks
  have hparts := @exists_parts "" rfl text.toList
  have hwrite := write?_eq sink [] "" text.toList held
  refine ⟨hparts, ?_, toList_apply text, replacement_of_mem_markup,
    fun c => replacement_of_not_mem_markup, ?_, ?_, hwrite, ?_⟩
  · obtain ⟨parts, _, _, (hchunks : chunks = parts.chunks)⟩ := hparts
    intro chunk hchunk
    have : chunk ∈ parts.chunks := hchunks ▸ hchunk
    exact Parts.ne_empty_of_mem this
  · intro text'
    rw [← String.toList_inj, String.toList_append]
    simp only [toList_apply, String.toList_append, List.flatMap_append]
  · intro text' h
    rw [← String.toList_inj, toList_apply, toList_apply] at h
    exact String.toList_inj.1 (flatMap_replacement_inj h)
  · rw [Render.emitAll_eq_offer]
    split
    · next held' hoffer => exact ⟨rfl, Sink.offer_noting_of_ok hoffer []⟩
    · next error held' hoffer => exact ⟨rfl, Sink.offer_noting_of_error hoffer []⟩

/-- Each of the markup characters at least once, in a text for a sink that has no room for all of
its chunks. -/
theorem Escape.chunks_html_link :
    let sink := Sink.chunkLog .outOfMemory Sink.recognizeOwn
    let chunks := Escape.html.chunks "<a href=\"ü\">Tom & 'Jerry'</a>"
    chunks = ["&lt;", "a href=", "&quot;", "ü", "&quot;", "&gt;", "Tom ", "&amp;", " ", "&#39;",
        "Jerry", "&#39;", "&lt;", "/a", "&gt;"] ∧
      (String.join chunks).toList =
        "&lt;a href=&quot;ü&quot;&gt;Tom &amp; &#39;Jerry&#39;&lt;/a&gt;".toList ∧
      Render.emitAll sink chunks ⟨.ofRoom (some 30), ()⟩ =
        (.error (.failed (.sink .outOfMemory)),
          ⟨⟨["&gt;", "&quot;", "ü", "&quot;", "a href=", "&lt;"], some 1⟩, ()⟩) := by
  intro sink chunks
  obtain ⟨_, _, hjoin, _, _, _, _, _, hrefused⟩ :=
    chunks_html sink "<a href=\"ü\">Tom & 'Jerry'</a>" (.ofRoom (some 30)) ()
  refine ⟨by decide, hjoin.trans (by decide), ?_⟩
  have hoffer : sink.offer chunks (.ofRoom (some 30)) =
      (.error .outOfMemory, ⟨["&gt;", "&quot;", "ü", "&quot;", "a href=", "&lt;"], some 1⟩) := rfl
  rw [hoffer] at hrefused
  exact hrefused.1

end Mustache
