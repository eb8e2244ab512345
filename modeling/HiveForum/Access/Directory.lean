import HiveForum.Access.Role
import HiveForum.Collection.Table

/-!
# The membership directory

The directory knows the hives, and the role of each of their members.

## Main definitions

* `Directory`: the members of every hive.
* `Directory.createHive`, `Directory.addMember`, `Directory.removeMember`: its changes.
* `Directory.checkMember`: the role in which a caller acts in a hive.

## Main results

* `Directory.checkMember_createHive_self`: whoever creates a hive owns it.
-/

namespace HiveForum

/-- The roles of the members of every hive. -/
structure Directory where
  hives : Table ScopeId (Table UserId Role)
deriving DecidableEq, Inhabited

namespace Directory

/-- The directory without hives. -/
def empty : Directory := ⟨.empty⟩

/-- Registers a hive with an owner; the members that it has already stay. -/
def createHive (directory : Directory) (hive : ScopeId) (owner : UserId) : Directory :=
  let members := (directory.hives.get? hive).getD .empty
  ⟨directory.hives.insert hive (members.insert owner .owner)⟩

/-- Gives a user a role in a hive. -/
def addMember (directory : Directory) (hive : ScopeId) (user : UserId) (role : Role) :
    Except AccessError Directory :=
  match directory.hives.get? hive with
  | none => .error .hiveNotFound
  | some members => .ok ⟨directory.hives.insert hive (members.insert user role)⟩

/-- Ends the membership of a user, if the hive and the membership exist. -/
def removeMember (directory : Directory) (hive : ScopeId) (user : UserId) : Directory :=
  match directory.hives.get? hive with
  | none => directory
  | some members => ⟨directory.hives.insert hive (members.erase user)⟩

/-- The role in which a caller acts in a hive: the role of a member, that of an owner for an
administrator. -/
def checkMember (directory : Directory) (caller : Caller) (hive : ScopeId) :
    Except AccessError Role :=
  match directory.hives.get? hive with
  | none => .error .hiveNotFound
  | some members =>
    if caller.isAdmin then .ok .owner
    else
      match members.get? caller.user with
      | none => .error .notMember
      | some role => .ok role

/-- Whoever creates a hive owns it. -/
theorem checkMember_createHive_self (directory : Directory) (hive : ScopeId) (owner : UserId)
    (isAdmin : Bool) :
    (directory.createHive hive owner).checkMember ⟨owner, isAdmin⟩ hive = .ok .owner := by
  simp [createHive, checkMember, Table.get?_insert]

end Directory

/-- Requires at least a given role. -/
def Role.require (required role : Role) : Except AccessError Role :=
  if role.permits required then .ok role else .error (.forbidden required)

end HiveForum
