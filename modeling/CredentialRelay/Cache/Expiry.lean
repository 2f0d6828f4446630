namespace CredentialRelay.Cache

/-- Idle for longer than `ttl`; idle for exactly `ttl` is not expired yet. -/
def isExpired (ttl : Nat) (now lastUse : Nat) : Bool := ttl < now - lastUse

end CredentialRelay.Cache
