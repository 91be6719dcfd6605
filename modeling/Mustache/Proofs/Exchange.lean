import Mustache.Engine
import Mustache.Proofs.Enumeration

/-!
# Mustache.Proofs.Exchange

Data with other lambdas in the place of its own. Where a lookup arrives, what a section goes
through and what a value is written in do not depend on what the lambdas in the data do.
-/

namespace Mustache

variable {σ τ : Type}

/-! ## Exchanging lambdas -/

theorem lookup_map_snd {α β : Type} (f : α → β) (entries : List (String × α)) (name : String) :
    (entries.map (Prod.map id f)).lookup name = (entries.lookup name).map f := by
  induction entries with
  | nil => rfl
  | cons entry entries ih =>
    obtain ⟨name', item⟩ := entry
    rw [List.map_cons, Prod.map, List.lookup_cons, List.lookup_cons, id]
    cases name == name' with
    | true => rfl
    | false => exact ih

def Method.exchange (g : Lambda σ → Lambda τ) : Method σ → Method τ
  | .bound f => .bound (g f)
  | .unusable => .unusable

namespace Data

mutual

/-- Puts `g f` in the place of each lambda `f`, at any depth. -/
def exchange (g : Lambda σ → Lambda τ) : Data σ → Data τ
  | .record fields methods =>
    .record (exchangeFields g fields) (methods.map (Prod.map id (.exchange g)))
  | .pointer target => .pointer (target.exchange g)
  | .absent => .absent
  | .present value => .present (value.exchange g)
  | .sequence items => .sequence (exchangeItems g items)
  | .tuple items => .tuple (exchangeItems g items)
  | .bytes octets => .bytes octets
  | .string text => .string text
  | .bool flag => .bool flag
  | .scalar text => .scalar text
  | .lambda f => .lambda (g f)

def exchangeItems (g : Lambda σ → Lambda τ) : List (Data σ) → List (Data τ)
  | [] => []
  | item :: items => item.exchange g :: exchangeItems g items

def exchangeFields (g : Lambda σ → Lambda τ) : List (String × Data σ) → List (String × Data τ)
  | [] => []
  | (name, item) :: fields => (name, item.exchange g) :: exchangeFields g fields

end

variable (g : Lambda σ → Lambda τ)

theorem exchangeItems_eq (items : List (Data σ)) :
    exchangeItems g items = items.map (exchange g) := by
  induction items with
  | nil => rfl
  | cons item items ih => rw [exchangeItems, ih, List.map_cons]

theorem exchangeFields_eq (fields : List (String × Data σ)) :
    exchangeFields g fields = fields.map (Prod.map id (exchange g)) := by
  induction fields with
  | nil => rfl
  | cons field fields ih =>
    obtain ⟨name, item⟩ := field
    rw [exchangeFields, ih, List.map_cons, Prod.map, id]

theorem chunks_exchange (escape : Escape) (data : Data σ) :
    (data.exchange g).chunks escape = data.chunks escape := by
  fun_induction data.chunks escape with
  | case5 target ih | case6 target ih => exact ih
  | _ => rfl

theorem size_exchange (data : Data σ) : (data.exchange g).size = data.size := by
  fun_induction Data.size data with
  | case5 target ih | case6 target ih => exact ih
  | _ => rfl

theorem target_exchange (data : Data σ) : (data.exchange g).target = data.target.exchange g := by
  fun_induction Data.target data with
  | case1 target ih | case2 target ih => exact ih
  | case3 data hpointer hpresent =>
    cases data with
    | pointer target => exact absurd rfl (hpointer target)
    | present value => exact absurd rfl (hpresent value)
    | _ => rfl

end Data

/-! ## Lookups -/

variable (g : Lambda σ → Lambda τ)

namespace Value

def exchange (g : Lambda σ → Lambda τ) : Value σ → Value τ
  | .host data => .host (data.exchange g)
  | .count n => .count n

theorem chunks_exchange (escape : Escape) (value : Value σ) :
    (value.exchange g).chunks escape = value.chunks escape := by
  cases value with
  | host data => exact data.chunks_exchange g escape
  | count n => rfl

theorem size_exchange (value : Value σ) : (value.exchange g).size = value.size := by
  cases value with
  | host data => exact data.size_exchange g
  | count n => rfl

end Value

def Entries.exchange (g : Lambda σ → Lambda τ) : Entries σ → Entries τ
  | .each values => .each (values.map (.exchange g))
  | .lambda f => .lambda (g f)

def Hop.exchange (g : Lambda σ → Lambda τ) : Hop σ → Hop τ
  | .missing => .missing
  | .broken => .broken
  | .member item => .member (item.exchange g)
  | .method f => .method (g f)
  | .count n => .count n

def Location.exchange (g : Lambda σ → Lambda τ) : Location σ → Location τ
  | .missing => .missing
  | .broken => .broken
  | .consumed => .consumed
  | .field value => .field (value.exchange g)
  | .lambda f => .lambda (g f)

theorem Data.entries_exchange :
    ∀ data : Data σ, (data.exchange g).entries = data.entries.exchange g
  | .sequence items | .tuple items => by
    simp [exchange, entries, Entries.exchange, exchangeItems_eq, Value.exchange]
  | .bool flag => by cases flag <;> rfl
  | .pointer target | .present target => target.entries_exchange
  | .absent | .lambda _ | .record .. | .bytes _ | .string _ | .scalar _ => rfl

theorem Value.entries_exchange (value : Value σ) :
    (value.exchange g).entries = value.entries.exchange g := by
  cases value with
  | host data => exact data.entries_exchange g
  | count n => rfl

theorem Value.hop_exchange (host : Value σ) (name : String) :
    (host.exchange g).hop name = (host.hop name).exchange g := by
  cases host with
  | count n => rfl
  | host data =>
    rw [exchange, hop, hop, Data.target_exchange]
    generalize data.target = target
    cases target with
    | record fields methods =>
      simp only [Data.exchange, Data.exchangeFields_eq, Data.bareHop, lookup_map_snd]
      cases fields.lookup name with
      | some item => rfl
      | none =>
        cases methods.lookup name with
        | none => rfl
        | some method => cases method <;> rfl
    | sequence items =>
      simp only [Data.exchange, Data.bareHop, Data.exchangeItems_eq, List.length_map]
      by_cases hname : name = "len" <;> simp [hname, Hop.exchange]
    | _ => rfl

theorem Entries.atIndex_exchange (entries : Entries σ) (index : Nat) :
    (entries.exchange g).atIndex index = (entries.atIndex index).exchange g := by
  cases entries with
  | each values =>
    simp only [exchange, atIndex, List.getElem?_map]
    cases values[index]? <;> rfl
  | lambda f => rfl

theorem Value.arrival_exchange (value : Value σ) (index : Option Nat) :
    (value.exchange g).arrival index = (value.arrival index).exchange g := by
  cases index with
  | none => rfl
  | some index => rw [arrival, arrival, entries_exchange, Entries.atIndex_exchange]

theorem locate_exchange (depth : Depth) (host : Value σ) (path : List String)
    (index : Option Nat) :
    locate depth (host.exchange g) path index = (locate depth host path index).exchange g := by
  have hfailure (depth : Depth) : depth.location = depth.location.exchange g := by
    cases depth <;> rfl
  induction path generalizing depth host with
  | nil =>
    by_cases h : ∃ f, host = .host (.lambda f)
    · obtain ⟨f, rfl⟩ := h
      rfl
    · have hlambda (f : Lambda σ) (hf : host = .host (.lambda f)) : False := h ⟨f, hf⟩
      have hexchange (f : Lambda τ) (hf : host.exchange g = .host (.lambda f)) : False := by
        cases host with
        | count n => cases hf
        | host data =>
          cases data with
          | lambda f => exact h ⟨f, rfl⟩
          | _ => cases hf
      rw [locate, locate]
      · exact host.arrival_exchange g index
      · exact hlambda
      · exact hexchange
  | cons name rest ih =>
    rw [locate, locate, Value.hop_exchange]
    cases host.hop name with
    | missing => exact hfailure depth
    | broken => rfl
    | member item => exact ih .leaf (.host item)
    | method f => by_cases hrest : rest = [] <;> simp [hrest, Hop.exchange, Location.exchange]
    | count n =>
      by_cases hrest : rest = []
      · simp only [Hop.exchange, if_pos hrest]
        exact (Value.count n).arrival_exchange g index
      · simp only [Hop.exchange, if_neg hrest]
        exact hfailure depth

theorem locateFrames_exchange (frames : List (Value σ)) (path : Path) (index : Option Nat) :
    locateFrames (frames.map (.exchange g)) path index =
      (locateFrames frames path index).exchange g := by
  induction frames with
  | nil => rfl
  | cons frame frames ih =>
    rw [List.map_cons, locateFrames, locateFrames, locate_exchange]
    cases locate .root frame path.segments index with
    | missing => exact ih
    | _ => rfl

theorem sectionEntries_exchange (frames : List (Value σ)) (path : Path) :
    sectionEntries (frames.map (.exchange g)) path =
      (sectionEntries frames path).map (.exchange g) := by
  rw [sectionEntries, sectionEntries, locateFrames_exchange]
  cases locateFrames frames path none with
  | field value => exact congrArg some (value.entries_exchange g)
  | _ => rfl

theorem entersSection_exchange (frames : List (Value σ)) (path : Path) :
    entersSection (frames.map (.exchange g)) path = entersSection frames path := by
  rw [entersSection, entersSection, resolveFrames_eq_act, resolveFrames_eq_act,
    locateFrames_exchange]
  cases locateFrames frames path (some 0) <;> rfl

/-! ## Estimates -/

namespace Engine

theorem pathSize_exchange (frames : List (Value σ)) (path : Path) :
    pathSize (frames.map (.exchange g)) path = pathSize frames path := by
  rw [pathSize, pathSize, resolveFrames_eq_act, resolveFrames_eq_act, locateFrames_exchange]
  cases locateFrames frames path none with
  | field value => exact value.size_exchange g
  | _ => rfl

mutual

theorem valueSize_exchange (frames : List (Value σ)) :
    ∀ node, valueSize (frames.map (.exchange g)) node = valueSize frames node
  | .literal _ | .inclusion .. => by rw [valueSize, valueSize]
  | .interpolation path _ _ => by rw [valueSize, valueSize, pathSize_exchange]
  | .block _ _ children _ _ _ => by rw [valueSize, valueSize, valueSizes_exchange frames children]

theorem valueSizes_exchange (frames : List (Value σ)) :
    ∀ nodes, valueSizes (frames.map (.exchange g)) nodes = valueSizes frames nodes
  | [] => by rw [valueSizes, valueSizes]
  | node :: nodes => by
    rw [valueSizes, valueSizes, valueSize_exchange frames node, valueSizes_exchange frames nodes]

end

/-- What the lambdas in the data do makes no difference to the estimate. -/
theorem capacityHint_exchange (template : Template) (data : Data σ) :
    capacityHint template (data.exchange g) = capacityHint template data := by
  rw [capacityHint, capacityHint]
  exact congrArg _ (valueSizes_exchange g [.host data] template.nodes)

end Engine

end Mustache
