import Warden.Ability

namespace Warden

/-!
# Records

The records of the payment host, as far as checks look at them.  A user is both a subject and
a resource, and owns itself; products and subscriptions are owned by a user.
-/

/-- An account. -/
structure User where
  id : UserId
  role : Role
  deriving DecidableEq, Repr

/-- A product, with the user who offers it. -/
structure Product where
  id : Int64 := 0
  owner : UserId := 0
  deriving DecidableEq, Repr, Inhabited

/-- A subscription, with the user who holds it. -/
structure Subscription where
  id : Int64 := 0
  owner : UserId := 0
  deriving DecidableEq, Repr, Inhabited

/-- The resource type of users. -/
def User.kind : String := "users"

/-- The resource type of products. -/
def Product.kind : String := "products"

/-- The resource type of subscriptions. -/
def Subscription.kind : String := "subscriptions"

namespace User

/-- The user who has not signed in. -/
def anon : User :=
  ⟨0, Role.anon⟩

instance : Inhabited User := ⟨anon⟩

/-- Whether a user has not signed in. -/
def isAnon (u : User) : Bool :=
  u.role == Role.anon

/-- Whether a user is an administrator. -/
def isAdmin (u : User) : Bool :=
  u.role == Role.admin

/-- A user as the one who acts. -/
def subject (u : User) : Subject :=
  ⟨u.role, u.id⟩

/-- A user as what is acted on. -/
def resource (u : User) : Resource Id :=
  ⟨kind, fun user => user == u.id⟩

end User

/-- A product as what is acted on. -/
def Product.resource (p : Product) : Resource Id :=
  ⟨kind, fun user => user == p.owner⟩

/-- A subscription as what is acted on. -/
def Subscription.resource (s : Subscription) : Resource Id :=
  ⟨kind, fun user => user == s.owner⟩

end Warden
