import CredentialRelay.Error

namespace CredentialRelay.Cache

/-- A store that is reached by calls, each of which may fail. Absent keys and fields are no
failures. -/
class FieldStore (σ : Type) where
  getField : (key field : String) → σ → Except RelayError (Option String) × σ
  setField : (key field value : String) → σ → Except RelayError Unit × σ
  deleteField : (key field : String) → σ → Except RelayError Unit × σ

end CredentialRelay.Cache
