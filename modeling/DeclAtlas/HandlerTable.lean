/-!
# Handler tables

A table assigns handlers to keys and may have one more for all other keys. The latest
assignment to a key counts. Running a key without any handler yields the default result.

## Main results

* `handler?_register_self`, `handler?_register_other`: assigning a key changes what that
  key finds and nothing else.
* `own?_registerAll`: assigning many keys at once is assigning each of them.
-/

universe u v w

namespace DeclAtlas

/-- Handlers by key, latest assignment first, with an optional one for all other keys. -/
structure HandlerTable (κ : Type u) (η : Type v) where
  /-- Keys with their handlers; the first pair with a key counts. -/
  handlers : List (κ × η) := []
  /-- The handler for keys without one of their own. -/
  fallback : Option η := none

namespace HandlerTable

variable {κ : Type u} {η : Type v} [DecidableEq κ]

instance : Inhabited (HandlerTable κ η) := ⟨{}⟩

/-- Assigns `handler` to `key`. -/
def register (t : HandlerTable κ η) (key : κ) (handler : η) : HandlerTable κ η :=
  { t with handlers := (key, handler) :: t.handlers }

/-- Assigns `handler` to each of `keys`. -/
def registerAll (t : HandlerTable κ η) (keys : List κ) (handler : η) : HandlerTable κ η :=
  keys.foldl (fun t key => t.register key handler) t

/-- Assigns `handler` to all keys without one of their own. -/
def setFallback (t : HandlerTable κ η) (handler : η) : HandlerTable κ η :=
  { t with fallback := some handler }

/-- The handler assigned to `key` itself. -/
def own? (t : HandlerTable κ η) (key : κ) : Option η :=
  (t.handlers.find? fun p => p.1 = key).map (·.2)

/-- Has `key` a handler of its own? -/
def isRegistered (t : HandlerTable κ η) (key : κ) : Bool := (t.own? key).isSome

/-- The handler that `key` finds. -/
def handler? (t : HandlerTable κ η) (key : κ) : Option η := (t.own? key).or t.fallback

/-- What `invoke` makes of the handler that `key` finds, or the default result. -/
def execute {ρ : Type w} [Inhabited ρ] (t : HandlerTable κ η) (key : κ) (invoke : η → ρ) : ρ :=
  match t.handler? key with
  | some h => invoke h
  | none => default

@[simp] theorem own?_register_self (t : HandlerTable κ η) (k : κ) (h : η) :
    (t.register k h).own? k = some h := by
  simp [own?, register]

theorem own?_register_other (t : HandlerTable κ η) {k k' : κ} (h : η) (hk : k ≠ k') :
    (t.register k h).own? k' = t.own? k' := by
  simp [own?, register, hk]

/-- Assigning many keys at once is assigning each of them. -/
theorem own?_registerAll (t : HandlerTable κ η) (keys : List κ) (h : η) (k : κ) :
    (t.registerAll keys h).own? k = if k ∈ keys then some h else t.own? k := by
  induction keys generalizing t with
  | nil => rfl
  | cons key keys ih =>
    have step : t.registerAll (key :: keys) h = (t.register key h).registerAll keys h := rfl
    rw [step, ih]
    by_cases hk : k = key
    · subst hk; simp
    · simp [hk, own?_register_other t h (Ne.symm hk)]

/-- An assigned key finds the handler it was assigned. -/
@[simp] theorem handler?_register_self (t : HandlerTable κ η) (k : κ) (h : η) :
    (t.register k h).handler? k = some h := by
  simp [handler?]

/-- Assigning a key changes nothing for any other. -/
theorem handler?_register_other (t : HandlerTable κ η) {k k' : κ} (h : η) (hk : k ≠ k') :
    (t.register k h).handler? k' = t.handler? k' := by
  rw [handler?, own?_register_other t h hk]; rfl

end HandlerTable

end DeclAtlas
