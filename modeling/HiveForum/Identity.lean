import HiveForum.Uuid

/-!
# The identities of a forum

Content is partitioned into scopes: the posts of a hive share the hive's scope, and the comments
of a post share a scope whose identifier is the post's. Users are named by an opaque text.

## Main definitions

* `ScopeId`, `ContentId`, `TagId`: identifiers of scopes, content items and tags.
* `ContentId.asScope`, `ScopeId.asContent`: a post and the scope of its comments.
* `UserId`: the name of a user.

## Main results

* `UserId.compare_empty_ne_lt`: the empty name is the first one.
-/

namespace HiveForum

open Std

/-- The partition that an item lives in: a hive for posts, a post for comments. -/
structure ScopeId where
  uuid : Uuid
deriving DecidableEq, Inhabited

/-- The identifier of a post or a comment. -/
structure ContentId where
  uuid : Uuid
deriving DecidableEq, Inhabited

/-- The identifier of a tag. -/
structure TagId where
  uuid : Uuid
deriving DecidableEq, Inhabited

/-- The name of a user, as the identity service gives it. -/
structure UserId where
  name : String
deriving DecidableEq, Inhabited

/-- The scope of the comments under a post. -/
def ContentId.asScope (id : ContentId) : ScopeId := ⟨id.uuid⟩

/-- The post whose comments live in a scope. -/
def ScopeId.asContent (scope : ScopeId) : ContentId := ⟨scope.uuid⟩

instance : ToString ScopeId := ⟨fun id => id.uuid.text⟩

instance : ToString ContentId := ⟨fun id => id.uuid.text⟩

instance : ToString TagId := ⟨fun id => id.uuid.text⟩

instance : ToString UserId := ⟨UserId.name⟩

/-! ### Order -/

instance : Ord ScopeId := ⟨compareOn ScopeId.uuid⟩

instance : TransOrd ScopeId := inferInstanceAs (TransCmp (compareOn ScopeId.uuid))

instance : LawfulEqOrd ScopeId where
  eq_of_compare {a b} h := by
    have h : compare a.uuid b.uuid = .eq := h
    cases a
    cases b
    exact congrArg ScopeId.mk (LawfulEqOrd.eq_of_compare h)

instance : Ord ContentId := ⟨compareOn ContentId.uuid⟩

instance : TransOrd ContentId := inferInstanceAs (TransCmp (compareOn ContentId.uuid))

instance : LawfulEqOrd ContentId where
  eq_of_compare {a b} h := by
    have h : compare a.uuid b.uuid = .eq := h
    cases a
    cases b
    exact congrArg ContentId.mk (LawfulEqOrd.eq_of_compare h)

instance : Ord TagId := ⟨compareOn TagId.uuid⟩

instance : TransOrd TagId := inferInstanceAs (TransCmp (compareOn TagId.uuid))

instance : LawfulEqOrd TagId where
  eq_of_compare {a b} h := by
    have h : compare a.uuid b.uuid = .eq := h
    cases a
    cases b
    exact congrArg TagId.mk (LawfulEqOrd.eq_of_compare h)

instance : Ord UserId := ⟨compareOn UserId.name⟩

instance : TransOrd UserId := inferInstanceAs (TransCmp (compareOn UserId.name))

instance : LawfulEqOrd UserId where
  eq_of_compare {a b} h := by
    have h : compare a.name b.name = .eq := h
    cases a
    cases b
    exact congrArg UserId.mk (LawfulEqOrd.eq_of_compare h)

/-- No name comes before the empty one. -/
theorem UserId.compare_empty_ne_lt (user : UserId) : compare user ⟨""⟩ ≠ .lt := by
  intro h
  have h : String.compare user.name "" = .lt := h
  rw [String.compare, compareOfLessAndEq] at h
  split at h
  · rename_i hlt
    exact absurd (String.lt_iff.1 hlt) (List.not_lt_nil _)
  · split at h <;> cases h

end HiveForum
