import QuicLab.Go.Reader
import QuicLab.Guarded
import QuicLab.Kotlin.Text

/-!
# Flat JSON objects

Objects whose members are numbers, strings and arrays of strings, as Go's
`encoding/json` writes them (`Json.omitEmpty`, `Json.object`) and as the class
`JSONObject` of Android reads them. A member is read at the type it was written
at; the conversions `JSONObject` makes otherwise are not modelled.
-/

namespace QuicLab

open Go Kotlin

/-- A value, with strings of the type `σ`. -/
inductive Json (σ : Type)
  | int (n : ℤ)
  | string (s : σ)
  | array (l : List σ)
  deriving DecidableEq

namespace Json

variable {σ τ : Type}

/-- An object: its members by name. -/
abbrev Object (σ : Type) := List (String × Json σ)

def map (f : σ → τ) : Json σ → Json τ
  | int n => int n
  | string s => string (f s)
  | array l => array (l.map f)

/-- Go's option `omitempty`. -/
def omitEmpty : Json Bytes → Option (Json Bytes)
  | int n => if n = 0 then none else some (int n)
  | string s => if s = [] then none else some (string s)
  | array l => if l = [] then none else some (array l)

/-- The object with the members that are not omitted. -/
def object (members : List (String × Option (Json σ))) : Object σ :=
  members.filterMap fun m => m.2.map fun v => (m.1, v)

/-- The object with its strings translated. -/
def Object.map (f : σ → τ) (o : Object σ) : Object τ := List.map (fun m => (m.1, m.2.map f)) o

theorem lookup_object {members : List (String × Option (Json σ))}
    (h : (members.map (·.1)).Nodup) (key : String) :
    (object members).lookup key = (members.lookup key).join := by
  induction members with
  | nil => rfl
  | cons m members ih =>
    obtain ⟨name, value⟩ := m
    rw [List.map_cons, List.nodup_cons] at h
    have ih := ih h.2
    rw [object] at ih
    rw [object, List.filterMap_cons, List.lookup_cons]
    by_cases hkey : key = name
    · subst hkey
      have hnone : members.lookup key = none := by
        rw [List.lookup_eq_none_iff]
        intro m hm
        rw [bne_iff_ne]
        rintro rfl
        exact h.1 (List.mem_map.2 ⟨m, hm, rfl⟩)
      rw [hnone] at ih
      cases value with
      | none => simpa using ih
      | some v => simp
    · have hbeq : (key == name) = false := beq_eq_false_iff_ne.2 hkey
      cases value with
      | none => simpa [hbeq] using ih
      | some v => simpa [hbeq, List.lookup_cons] using ih

theorem Object.lookup_map (f : σ → τ) (o : Object σ) (key : String) :
    (o.map f).lookup key = (o.lookup key).map (Json.map f) := by
  induction o with
  | nil => rfl
  | cons m o ih =>
    rw [Object.map] at ih
    rw [Object.map, List.map_cons, List.lookup_cons, List.lookup_cons]
    split
    · rfl
    · exact ih

end Json

namespace Kotlin

/-- What a function of the app may throw: no value of the name in a `JSONObject`, a
    failed `require`, a failed `error`, or the error of Go code. -/
inductive Exception
  | noValue (name : String)
  | illegalArgument (message : Text)
  | illegalState (message : Text)
  | go (e : Error)
  deriving DecidableEq

/-- `require`. -/
def require (value : Prop) [Decidable value] (message : Text) : Except Exception Unit :=
  if ¬ value then .error (.illegalArgument message) else .ok ()

theorem guarded_require (value : Prop) [Decidable value] (message : Text) :
    Guarded value () (require value message) := by
  rw [require]
  exact ((Guarded.pure ()).ite _).congr
    ⟨fun h => not_not.1 h.1, fun h => ⟨not_not.2 h, trivial⟩⟩

theorem require_of {value : Prop} [Decidable value] (h : value) (message : Text) :
    require value message = .ok () := (guarded_require value message).accepts h

theorem require_bind_eq_ok_iff {α : Type} {value : Prop} [Decidable value] {message : Text}
    {f : Unit → Except Exception α} {a : α} :
    (require value message >>= f) = .ok a ↔ value ∧ f () = .ok a := by
  rw [require]
  split_ifs with h
  · exact ⟨fun heq => ⟨h, heq⟩, fun heq => heq.2⟩
  · exact ⟨(fun heq => by cases heq), fun heq => absurd heq.1 h⟩

/-- A statement under a condition. -/
def whenever (value : Prop) [Decidable value] (r : Except Exception Unit) : Except Exception Unit :=
  if value then r else .ok ()

theorem guarded_whenever {value ok : Prop} [Decidable value] {r : Except Exception Unit}
    (h : value → Guarded ok () r) : Guarded (value → ok) () (whenever value r) := by
  by_cases hv : value
  · rw [whenever, if_pos hv]
    exact (h hv).congr ⟨fun h _ => h, fun h => h hv⟩
  · rw [whenever, if_neg hv]
    exact (Guarded.pure ()).congr ⟨fun _ h => absurd h hv, fun _ => trivial⟩

/-- `JSONObject`. -/
abbrev JSONObject := Json.Object Text

namespace JSONObject

variable (p : JSONObject) (name : String)

/-- `JSONObject.has`. -/
def has : Bool := (p.lookup name).isSome

/-- `JSONObject.getInt`. -/
def getInt : Except Exception ℤ :=
  match p.lookup name with
  | some (.int n) => .ok n
  | _ => .error (.noValue name)

/-- `JSONObject.optInt`. -/
def optInt (fallback : ℤ) : ℤ :=
  match p.lookup name with
  | some (.int n) => n
  | _ => fallback

/-- `JSONObject.getString`. -/
def getString : Except Exception Text :=
  match p.lookup name with
  | some (.string s) => .ok s
  | _ => .error (.noValue name)

/-- `JSONObject.optString`. -/
def optString (fallback : Text) : Text :=
  match p.lookup name with
  | some (.string s) => s
  | _ => fallback

/-- `JSONObject.getJSONArray`, with its strings. -/
def getJSONArray : Except Exception (List Text) :=
  match p.lookup name with
  | some (.array l) => .ok l
  | _ => .error (.noValue name)

end JSONObject

end Kotlin

end QuicLab
