import Freeshard.Service.Backup

/-! # The arguments of `rclone`

The command is formatted as one text and then split at white space. If no value contains any and none is empty, every
value arrives as an argument of its own, behind its flag. -/

namespace Freeshard.Backup
open Text
set_option autoImplicit false

/-- A value that can be passed in a command that is split at white space. -/
def Passable (value : String) : Prop := IsWord value.toList

instance (value : String) : Decidable (Passable value) := inferInstanceAs (Decidable (IsWord _))

theorem command_eq (sasToken obscuredPassword containerName directory : String) :
    command sasToken obscuredPassword containerName directory =
      "\nrclone\n--azureblob-sas-url " ++ sasToken ++ "\n--crypt-password " ++ obscuredPassword ++ "\n" ++
      ("--crypt-remote :azureblob:" ++ containerName ++ "\nsync " ++ directory ++ " :crypt:" ++ containerName ++ "/" ++
        directory ++ "\n") ++
      "--create-empty-src-dirs --stats-log-level NOTICE --stats 1000m --use-json-log\n--fast-list\n" := rfl

/-- The command, word by word. -/
theorem command_toList (sasToken obscuredPassword containerName directory : String) :
    (command sasToken obscuredPassword containerName directory).toList =
      "\nrclone\n--azureblob-sas-url".toList ++ ' ' :: (sasToken.toList ++ '\n' ::
        ("--crypt-password".toList ++ ' ' :: (obscuredPassword.toList ++ '\n' ::
          ("--crypt-remote".toList ++ ' ' :: (":azureblob:".toList ++ containerName.toList ++ '\n' ::
            ("sync".toList ++ ' ' :: (directory.toList ++ ' ' ::
              (":crypt:".toList ++ containerName.toList ++ "/".toList ++ directory.toList ++ '\n' ::
                "--create-empty-src-dirs --stats-log-level NOTICE --stats 1000m --use-json-log\n--fast-list\n".toList
              )))))))) := by
  have hurl : "\nrclone\n--azureblob-sas-url ".toList = "\nrclone\n--azureblob-sas-url".toList ++ [' '] := rfl
  have hpassword : "\n--crypt-password ".toList = '\n' :: ("--crypt-password".toList ++ [' ']) := rfl
  have hend : "\n".toList = ['\n'] := rfl
  have hremote : "--crypt-remote :azureblob:".toList = "--crypt-remote".toList ++ ' ' :: ":azureblob:".toList := rfl
  have hsync : "\nsync ".toList = '\n' :: ("sync".toList ++ [' ']) := rfl
  have hcrypt : " :crypt:".toList = ' ' :: ":crypt:".toList := rfl
  rw [command_eq]
  simp only [String.toList_append]
  rw [hurl, hpassword, hend, hremote, hsync, hcrypt]
  simp only [List.append_assoc, List.cons_append, List.nil_append]

/-- Every value is an argument of its own, or the end of one. -/
theorem arguments_of_passable {sasToken obscuredPassword containerName directory : String}
    (hsas : Passable sasToken) (hpassword : Passable obscuredPassword) (hcontainer : Passable containerName)
    (hdirectory : Passable directory) :
    arguments sasToken obscuredPassword containerName directory =
      ["rclone", "--azureblob-sas-url", sasToken, "--crypt-password", obscuredPassword, "--crypt-remote",
        ":azureblob:" ++ containerName, "sync", directory, ":crypt:" ++ containerName ++ "/" ++ directory,
        "--create-empty-src-dirs", "--stats-log-level", "NOTICE", "--stats", "1000m", "--use-json-log",
        "--fast-list"] := by
  have hspace : isSpace ' ' = true := rfl
  have hnewline : isSpace '\n' = true := rfl
  have hremote : IsWord (":azureblob:".toList ++ containerName.toList) :=
    IsWord.append (by decide) hcontainer
  have htarget : IsWord (":crypt:".toList ++ containerName.toList ++ "/".toList ++ directory.toList) :=
    (((IsWord.append (by decide) hcontainer).append (by decide)).append hdirectory)
  have hflagPassword : IsWord "--crypt-password".toList := by decide
  have hflagRemote : IsWord "--crypt-remote".toList := by decide
  have hsync : IsWord "sync".toList := by decide
  have hstart : words "\nrclone\n--azureblob-sas-url".toList = ["rclone".toList, "--azureblob-sas-url".toList] := by
    decide +kernel
  have hend : words
      "--create-empty-src-dirs --stats-log-level NOTICE --stats 1000m --use-json-log\n--fast-list\n".toList =
      ["--create-empty-src-dirs", "--stats-log-level", "NOTICE", "--stats", "1000m", "--use-json-log",
        "--fast-list"].map String.toList := by
    decide +kernel
  rw [arguments, split, command_toList, words_append_cons _ _ hspace, hstart, words_word_cons hsas _ hnewline,
    words_word_cons hflagPassword _ hspace,
    words_word_cons hpassword _ hnewline,
    words_word_cons hflagRemote _ hspace,
    words_word_cons hremote _ hnewline,
    words_word_cons hsync _ hspace,
    words_word_cons hdirectory _ hspace, words_word_cons htarget _ hnewline, hend]
  simp only [List.map_cons, List.map_nil, List.cons_append, List.nil_append, String.ofList_toList,
    ← String.toList_append]

/-- A command with its values. -/
theorem arguments_of_passable_box : arguments "https://a/box?sig=x" "k3y" "box" "user_data" =
    ["rclone", "--azureblob-sas-url", "https://a/box?sig=x", "--crypt-password", "k3y", "--crypt-remote",
      ":azureblob:" ++ "box", "sync", "user_data", ":crypt:" ++ "box" ++ "/" ++ "user_data",
      "--create-empty-src-dirs", "--stats-log-level", "NOTICE", "--stats", "1000m", "--use-json-log", "--fast-list"] :=
  arguments_of_passable (by decide) (by decide) (by decide) (by decide)

end Freeshard.Backup
