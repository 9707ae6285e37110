import Mathlib.Algebra.Group.Nat.Defs
import Mathlib.Data.List.Nodup

/-!
# JSON values and derived decoders

A JSON value as a parser meets it: an object is the list of its fields in the
order of the text, repeated names and all. The decoders are the parts a derived
decoder is made of: a struct is an object, of which it skips the fields it does
not know, or an array of its fields in order; an enum is tagged from outside.

Numbers that are no `u64` (negative, fractional, too large) are a parameter: no
decoder here takes one.
-/

inductive Json (ν : Type)
  | null
  | bool (b : Bool)
  | number (n : UInt64)
  | other (x : ν)
  | string (s : String)
  | array (items : List (Json ν))
  | object (fields : List (String × Json ν))

namespace Json

variable {ν α : Type} {names : List String}

theorem ind {motive : Json ν → Prop} (null : motive .null) (bool : ∀ b, motive (.bool b))
    (number : ∀ n, motive (.number n)) (other : ∀ x, motive (.other x))
    (string : ∀ s, motive (.string s))
    (array : ∀ items, (∀ item ∈ items, motive item) → motive (.array items))
    (object : ∀ fields, (∀ field ∈ fields, motive field.2) → motive (.object fields))
    (json : Json ν) : motive json :=
  @Json.rec ν motive (fun items => ∀ item ∈ items, motive item)
    (fun fields => ∀ field ∈ fields, motive field.2) (fun field => motive field.2)
    null bool number other string array object
    (fun _ h => absurd h List.not_mem_nil)
    (fun _ _ head tail => List.forall_mem_cons.mpr ⟨head, tail⟩)
    (fun _ h => absurd h List.not_mem_nil)
    (fun _ _ head tail => List.forall_mem_cons.mpr ⟨head, tail⟩)
    (fun _ _ value => value) json

-- ---------------------------------------------------------------------------
-- Scalars and sequences
-- ---------------------------------------------------------------------------

def ofU64 (n : Nat) : Json ν := .number (UInt64.ofNat n)

def toU64 : Json ν → Option Nat
  | .number n => some n.toNat
  | _ => none

def ofU8 (n : UInt8) : Json ν := .number n.toUInt64

def toU8 : Json ν → Option UInt8
  | .number n => if n.toNat < 2 ^ 8 then some n.toUInt8 else none
  | _ => none

def toBool : Json ν → Option Bool
  | .bool b => some b
  | _ => none

def toStr : Json ν → Option String
  | .string s => some s
  | _ => none

def toVec (decode : Json ν → Option α) : Json ν → Option (List α)
  | .array items => items.mapM decode
  | _ => none

@[simp] theorem toU64_ofU64 {n : Nat} (h : n < 2 ^ 64) : (ofU64 n : Json ν).toU64 = some n := by
  rw [ofU64, toU64, UInt64.toNat_ofNat', Nat.mod_eq_of_lt h]

@[simp] theorem toU8_ofU8 (n : UInt8) : (ofU8 n : Json ν).toU8 = some n := by
  have h : n.toUInt64.toNat < 2 ^ 8 := n.toNat_lt
  rw [ofU8, toU8, if_pos h, UInt8.toUInt8_toUInt64]

@[simp] theorem toStr_string (s : String) : (.string s : Json ν).toStr = some s := rfl

theorem toVec_map {encode : α → Json ν} {decode : Json ν → Option α} {xs : List α}
    (h : ∀ x ∈ xs, decode (encode x) = some x) :
    toVec decode (.array (xs.map encode)) = some xs := by
  rw [toVec]
  induction xs with
  | nil => rfl
  | cons x xs ih =>
    rw [List.map_cons, List.mapM_cons, h x List.mem_cons_self,
      ih fun y hy => h y (List.mem_cons_of_mem _ hy)]
    rfl

-- ---------------------------------------------------------------------------
-- Structs and enums
-- ---------------------------------------------------------------------------

/-- The fields of a struct by their names. An unknown field is skipped; a known
one that comes twice is an error, and so is an array with too many items. -/
def toStruct (names : List String) : Json ν → Option (String → Option (Json ν))
  | .object fields =>
    let known := fields.filter (·.1 ∈ names)
    if (known.map (·.1)).Nodup then some (known.lookup ·) else none
  | .array items =>
    if items.length ≤ names.length then some fun name => (names.idxOf? name).bind (items[·]?)
    else none
  | _ => none

/-- The variant of an enum and what it carries. -/
def toVariant : Json ν → Option (String × Option (Json ν))
  | .string tag => some (tag, none)
  | .object [(tag, content)] => some (tag, some content)
  | _ => none

def toUnit (x : α) : Option (Json ν) → Option α
  | none => some x
  | some .null => some x
  | some _ => none

/-- The field of a value that was parsed for its own sake: the last of its name counts. -/
def get (name : String) : Json ν → Option (Json ν)
  | .object fields => fields.reverse.lookup name
  | _ => none

inductive WithUnknown (names : List String) :
    List (String × Json ν) → List (String × Json ν) → Prop
  | nil : WithUnknown names [] []
  | keep (field : String × Json ν) (h : WithUnknown names before after) :
    WithUnknown names (field :: before) (field :: after)
  | add (name : String) (value : Json ν) (unknown : name ∉ names)
    (h : WithUnknown names before after) :
    WithUnknown names before ((name, value) :: after)

variable {fields fields' : List (String × Json ν)} {name : String}

theorem toStruct_object (h : fields.map (·.1) = names) (hn : names.Nodup) :
    toStruct names (.object fields) = some (fields.lookup ·) := by
  have hknown : fields.filter (·.1 ∈ names) = fields := by
    refine List.filter_eq_self.mpr fun field hfield => ?_
    simpa using h ▸ List.mem_map_of_mem hfield
  rw [toStruct, hknown, h]
  exact if_pos hn

/-- Unknown fields are skipped. -/
theorem toStruct_withUnknown (h : WithUnknown names fields fields') :
    toStruct names (.object fields') = toStruct names (.object fields) := by
  have hknown : fields'.filter (·.1 ∈ names) = fields.filter (·.1 ∈ names) := by
    induction h with
    | nil => rfl
    | keep field _ ih => rw [List.filter_cons, List.filter_cons, ih]
    | add name value unknown _ ih => rw [List.filter_cons_of_neg (by simpa using unknown), ih]
  rw [toStruct, toStruct, hknown]

theorem lookup_eq_none_of_not_mem (h : name ∉ fields.map (·.1)) : fields.lookup name = none := by
  rw [List.lookup_eq_none_iff]
  intro field hfield
  exact bne_iff_ne.mpr fun heq => h (by rw [heq]; exact List.mem_map_of_mem hfield)

theorem not_mem_known (h : name ∉ fields.map (·.1)) :
    name ∉ (fields.filter (·.1 ∈ names)).map (·.1) :=
  fun hmem => h ((List.filter_sublist.map _).subset hmem)

theorem toStruct_insert {value : Json ν} (hname : name ∈ names)
    (hnew : name ∉ (fields ++ fields').map (·.1)) :
    toStruct names (.object (fields ++ (name, value) :: fields')) =
      (toStruct names (.object (fields ++ fields'))).map
        fun get key => if key = name then some value else get key := by
  rw [List.map_append, List.mem_append, not_or] at hnew
  have hfields := @not_mem_known _ names _ _ hnew.1
  have hfields' := @not_mem_known _ names _ _ hnew.2
  have hnodup : (((fields ++ (name, value) :: fields').filter (·.1 ∈ names)).map (·.1)).Nodup ↔
      (((fields ++ fields').filter (·.1 ∈ names)).map (·.1)).Nodup := by
    rw [List.filter_append, List.filter_cons_of_pos (by simpa using hname), List.map_append,
      List.map_cons, List.nodup_middle, List.nodup_cons, List.filter_append, List.map_append]
    exact and_iff_right (by simp only [List.mem_append, hfields, hfields', or_self,
      not_false_eq_true])
  simp only [toStruct, hnodup]
  split
  · refine congrArg some (funext fun key => ?_)
    rw [List.filter_append, List.filter_cons_of_pos (by simpa using hname), List.filter_append,
      List.lookup_append]
    show _ = if key = name then some value else List.lookup key (_ ++ _)
    rw [List.lookup_append]
    by_cases hkey : key = name
    · subst hkey
      rw [lookup_eq_none_of_not_mem hfields, if_pos rfl, List.lookup_cons_self, Option.none_or]
    · rw [if_neg hkey, List.lookup_cons, beq_false_of_ne hkey]
  · rfl

theorem toStruct_absent {get : String → Option (Json ν)} (hnew : name ∉ fields.map (·.1))
    (h : toStruct names (.object fields) = some get) : get name = none := by
  simp only [toStruct, Option.ite_none_right_eq_some] at h
  obtain ⟨-, h⟩ := h
  cases h
  exact lookup_eq_none_of_not_mem (not_mem_known hnew)

/-- A decoder of the fields of a struct for which a missing field is as good as
a given value of it. -/
theorem bind_toStruct_insert {value : Json ν} {build : (String → Option (Json ν)) → Option α}
    (hname : name ∈ names) (hnew : name ∉ (fields ++ fields').map (·.1))
    (hbuild : ∀ get, get name = none →
      build (fun key => if key = name then some value else get key) = build get) :
    (toStruct names (.object (fields ++ (name, value) :: fields'))).bind build =
      (toStruct names (.object (fields ++ fields'))).bind build := by
  rw [toStruct_insert hname hnew]
  cases hget : toStruct names (.object (fields ++ fields')) with
  | none => rfl
  | some get => exact hbuild get (toStruct_absent hnew hget)

end Json
