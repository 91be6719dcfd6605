import Mustache.Proofs.Congruence

/-!
# Mustache.Proofs.LambdaFree

Data without lambdas. No lookup arrives at a lambda there, and the elements that sections go
through have none either. So no call is ever made, and what lambdas would render with does not
matter.
-/

namespace Mustache

variable {ω σ : Type}

theorem of_lookup_of_all {α : Type} {p : α → Bool} {entries : List (String × α)}
    {name : String} {item : α} (h : entries.all (fun entry => p entry.2) = true)
    (hlookup : entries.lookup name = some item) : p item = true := by
  obtain ⟨before, after, rfl, _⟩ := List.lookup_eq_some_iff.1 hlookup
  exact List.all_eq_true.1 h (name, item) (by simp)

def Method.lambdaFree : Method σ → Bool
  | .bound _ => false
  | .unusable => true

namespace Data

mutual

/-- Whether there is no lambda in the data, at any depth. -/
def lambdaFree : Data σ → Bool
  | .record fields methods => fieldsLambdaFree fields && methods.all (·.2.lambdaFree)
  | .pointer target => target.lambdaFree
  | .present value => value.lambdaFree
  | .sequence items | .tuple items => itemsLambdaFree items
  | .lambda _ => false
  | .absent | .bytes _ | .string _ | .bool _ | .scalar _ => true

def itemsLambdaFree : List (Data σ) → Bool
  | [] => true
  | item :: items => item.lambdaFree && itemsLambdaFree items

def fieldsLambdaFree : List (String × Data σ) → Bool
  | [] => true
  | (_, item) :: fields => item.lambdaFree && fieldsLambdaFree fields

end

theorem itemsLambdaFree_eq (items : List (Data σ)) :
    itemsLambdaFree items = items.all lambdaFree := by
  induction items with
  | nil => rfl
  | cons item items ih => rw [itemsLambdaFree, ih, List.all_cons]

theorem fieldsLambdaFree_eq (fields : List (String × Data σ)) :
    fieldsLambdaFree fields = fields.all fun field => field.2.lambdaFree := by
  induction fields with
  | nil => rfl
  | cons field fields ih => rw [fieldsLambdaFree, ih, List.all_cons]

theorem lambdaFree_target {data : Data σ} (h : data.lambdaFree = true) :
    (target data).lambdaFree = true := by
  fun_induction target data with
  | case1 target ih => exact ih h
  | case2 value ih => exact ih h
  | case3 => exact h

end Data

namespace Value

def lambdaFree : Value σ → Bool
  | .host data => data.lambdaFree
  | .count _ => true

/-- A hop from data without lambdas leads to such data, if it leads on. -/
theorem hop_of_lambdaFree {host : Value σ} (h : host.lambdaFree = true) (name : String) :
    (∀ item, host.hop name = .member item → item.lambdaFree = true) ∧
      ∀ f, host.hop name ≠ .method f := by
  cases host with
  | count n => constructor <;> rintro _ ⟨⟩
  | host data =>
    have htarget := Data.lambdaFree_target h
    rw [hop]
    generalize data.target = target at htarget
    cases target with
    | record fields methods =>
      rw [Data.lambdaFree, Data.fieldsLambdaFree_eq, Bool.and_eq_true] at htarget
      obtain ⟨hfields, hmethods⟩ := htarget
      rw [Data.bareHop]
      cases hfield : fields.lookup name with
      | some item =>
        constructor
        · rintro _ ⟨⟩
          exact of_lookup_of_all hfields hfield
        · rintro _ ⟨⟩
      | none =>
        cases hmethod : methods.lookup name with
        | none => constructor <;> rintro _ ⟨⟩
        | some method =>
          have hfree := of_lookup_of_all hmethods hmethod
          cases method with
          | bound f => cases hfree
          | unusable => constructor <;> rintro _ ⟨⟩
    | sequence items =>
      rw [Data.bareHop]
      split <;> constructor <;> rintro _ ⟨⟩
    | _ => constructor <;> rintro _ ⟨⟩

theorem entries_of_lambdaFree {value : Value σ} (h : value.lambdaFree = true) :
    ∃ values, value.entries = .each values ∧ ∀ item ∈ values, item.lambdaFree = true := by
  have henumeration : ∃ values, value.enumeration = .each values ∧
      ∀ item ∈ values, item.lambdaFree = true := by
    cases value with
    | count n => exact ⟨[.count n], rfl, by simpa using h⟩
    | host data =>
      have htarget := Data.lambdaFree_target h
      rw [enumeration]
      generalize data.target = target at htarget
      cases target with
      | sequence items | tuple items =>
        rw [Data.lambdaFree, Data.itemsLambdaFree_eq, List.all_eq_true] at htarget
        exact ⟨_, rfl, by simpa [lambdaFree] using htarget⟩
      | bool flag =>
        cases flag with
        | false => exact ⟨[], rfl, nofun⟩
        | true => exact ⟨_, rfl, by simpa [lambdaFree] using htarget⟩
      | absent => exact ⟨[], rfl, nofun⟩
      | lambda f => cases htarget
      | _ => exact ⟨_, rfl, by simpa [lambdaFree] using htarget⟩
  rw [value.enumeration_eq] at henumeration
  cases hentries : value.entries with
  | each values =>
    rw [hentries] at henumeration
    obtain ⟨_, ⟨⟩, hvalues⟩ := henumeration
    exact ⟨values, rfl, hvalues⟩
  | lambda f =>
    rw [hentries] at henumeration
    obtain ⟨_, heq, _⟩ := henumeration
    cases heq

end Value

/-! ## Lookups -/

namespace Location

/-- What a location in data without lambdas can be. -/
def LambdaFree : Location σ → Prop
  | .field value => value.lambdaFree = true
  | .lambda _ => False
  | .missing | .broken | .consumed => True

end Location

theorem locate_lambdaFree {depth : Depth} {host : Value σ} (h : host.lambdaFree = true)
    (path : List String) : (locate depth host path none).LambdaFree := by
  have hfailure (depth : Depth) : (depth.location : Location σ).LambdaFree := by
    cases depth <;> trivial
  induction path generalizing depth host with
  | nil =>
    unfold locate
    split
    · cases h
    · exact h
  | cons name rest ih =>
    obtain ⟨hmember, hmethod⟩ := host.hop_of_lambdaFree h name
    rw [locate]
    cases hhop : host.hop name with
    | missing => exact hfailure depth
    | broken => trivial
    | member item => exact ih (hmember item hhop)
    | method f => exact absurd hhop (hmethod f)
    | count n =>
      simp only
      split
      · exact rfl
      · exact hfailure depth

/-- Contexts without lambdas. -/
def LambdaFree (frames : List (Value σ)) : Prop :=
  ∀ frame ∈ frames, frame.lambdaFree = true

theorem LambdaFree.of_data {data : Data σ} (h : data.lambdaFree = true) :
    LambdaFree [Value.host data] :=
  List.forall_mem_singleton.2 h

theorem locateFrames_lambdaFree {frames : List (Value σ)} (h : LambdaFree frames) (path : Path) :
    (locateFrames frames path none).LambdaFree := by
  obtain ⟨hbroken, _⟩ | ⟨skipped, frame, outer, rfl, _, _, hlocation⟩ :=
    locateFrames_cases frames path none
  · rw [hbroken]
    trivial
  · rw [hlocation]
    exact locate_lambdaFree (h frame (by simp)) path.segments

/-- A section over data without lambdas calls none, and adds no context that has one. -/
theorem sectionEntries_lambdaFree {frames : List (Value σ)} (h : LambdaFree frames) {path : Path}
    {entries : Entries σ} (hentries : sectionEntries frames path = some entries) :
    ∃ values, entries = .each values ∧ ∀ value ∈ values, value.lambdaFree = true := by
  have hlocation := locateFrames_lambdaFree h path
  rw [sectionEntries] at hentries
  cases hfound : locateFrames frames path none with
  | missing | broken =>
    rw [hfound] at hentries
    cases hentries
  | consumed =>
    rw [hfound] at hentries
    cases hentries
    exact ⟨[], rfl, nofun⟩
  | field value =>
    rw [hfound] at hentries hlocation
    cases hentries
    exact value.entries_of_lambdaFree hlocation
  | lambda f =>
    rw [hfound] at hlocation
    exact hlocation.elim

theorem sectionEntries_ne_lambda {frames : List (Value σ)} (h : LambdaFree frames) {path : Path}
    (f : Lambda σ) : sectionEntries frames path ≠ some (.lambda f) := by
  intro hentries
  obtain ⟨values, heq, _⟩ := sectionEntries_lambdaFree h hentries
  cases heq

theorem Contexts.lambdaFree : Contexts (σ := σ) LambdaFree where
  each := by
    intro frames path values h hentries value hvalue
    obtain ⟨_, ⟨⟩, hvalues⟩ := sectionEntries_lambdaFree h hentries
    exact List.forall_mem_cons.2 ⟨hvalues value hvalue, h⟩

/-- Over data without lambdas, all that instructions can go on into are partials. -/
theorem Render.Congruence.renderNodes_of_inclusion {ω₁ ω₂ : Type} {sink₁ : Sink ω₁}
    {sink₂ : Sink ω₂} {P : (α : Type) → Render ω₁ σ α → Render ω₂ σ α → Prop}
    (h : Render.Congruence sink₁ sink₂ P) {k₁ : Continuation ω₁ σ} {k₂ : Continuation ω₂ σ}
    (hinclusion : ∀ frames name indentation, LambdaFree frames →
      P Unit (k₁.inclusion frames name indentation) (k₂.inclusion frames name indentation))
    (escape : Escape) (nodes : List Node) {frames : List (Value σ)} (hframes : LambdaFree frames) :
    P Unit (Mustache.renderNodes sink₁ escape k₁ nodes frames)
      (Mustache.renderNodes sink₂ escape k₂ nodes frames) := by
  refine h.renderNodes k₁ k₂ escape .lambdaFree hinclusion ?_ nodes frames hframes
  intro frames path f call hframes hentries
  exact absurd hentries (sectionEntries_ne_lambda hframes f)

end Mustache
